import Mathlib.Data.List.Infix
import Mathlib.Order.Bounds.Defs
import Mathlib.Order.MinMax
import KeyForm.Text.Distance
/-! The edit distance of two words is the least number of edits that turn one into the other.
The table holds what a recursion over both words gives; that number of edits is enough, and as
one edit changes no distance by more than one, no fewer are. -/
namespace KeyForm

inductive Edit : List Char → List Char → Prop where
  | insert (before : List Char) (c : Char) (after : List Char) :
      Edit (before ++ after) (before ++ c :: after)
  | delete (before : List Char) (c : Char) (after : List Char) :
      Edit (before ++ c :: after) (before ++ after)
  | replace (before : List Char) (c d : Char) (after : List Char) :
      Edit (before ++ c :: after) (before ++ d :: after)

inductive Edits : Nat → List Char → List Char → Prop where
  | none (a : List Char) : Edits 0 a a
  | next {n : Nat} {a b c : List Char} (edit : Edit a b) (rest : Edits n b c) :
      Edits (n + 1) a c

namespace Edit

theorem cons {a b : List Char} (p : Char) (edit : Edit a b) : Edit (p :: a) (p :: b) := by
  cases edit with
  | insert before c after => exact insert (p :: before) c after
  | delete before c after => exact delete (p :: before) c after
  | replace before c d after => exact replace (p :: before) c d after

end Edit

namespace Edits
variable {n : Nat} {a b : List Char}

theorem cons (p : Char) (edits : Edits n a b) : Edits n (p :: a) (p :: b) := by
  induction edits with
  | none a => exact none (p :: a)
  | next edit _ ih => exact next (edit.cons p) ih

theorem insertHead (edits : Edits n a b) (d : Char) : Edits (n + 1) a (d :: b) :=
  next (.insert [] d a) (edits.cons d)

theorem deleteHead (edits : Edits n a b) (c : Char) : Edits (n + 1) (c :: a) b :=
  next (.delete [] c a) edits

theorem replaceHead (edits : Edits n a b) (c d : Char) : Edits (n + 1) (c :: a) (d :: b) :=
  next (.replace [] c d a) (edits.cons d)

theorem insertAll (b : List Char) : Edits b.length [] b := by
  induction b with
  | nil => exact none []
  | cons d b ih => exact ih.insertHead d

theorem deleteAll (a : List Char) : Edits a.length a [] := by
  induction a with
  | nil => exact none []
  | cons c a ih => exact ih.deleteHead c

end Edits

namespace Distance

def apart : List Char → List Char → Nat
  | [], b => b.length
  | c :: a, [] => (c :: a).length
  | c :: a, d :: b =>
    if c = d then apart a b
    else min (apart a (d :: b)) (min (apart (c :: a) b) (apart a b)) + 1
termination_by a b => a.length + b.length

variable {a b x : List Char} {c d : Char}

@[simp] theorem apartNil (a : List Char) : apart a [] = a.length := by
  cases a <;> rw [apart]

@[simp] theorem nilApart (b : List Char) : apart [] b = b.length := by
  rw [apart]

theorem apartSame : apart (c :: a) (c :: b) = apart a b := by
  rw [apart, if_pos rfl]

theorem apartOther (other : c ≠ d) : apart (c :: a) (d :: b) =
    min (apart a (d :: b)) (min (apart (c :: a) b) (apart a b)) + 1 := by
  rw [apart, if_neg other]

theorem apartSelf (a : List Char) : apart a a = 0 := by
  induction a with
  | nil => simp
  | cons c a ih => rwa [apartSame]

-- A row has the endings of the second word in the order of `List.tails`.
theorem emptyRowApart (b : List Char) : emptyRow b = b.tails.map (apart []) := by
  induction b with
  | nil => simp [emptyRow]
  | cons d b ih => simp [emptyRow, ih]

theorem headApart (a b : List Char) : (b.tails.map (apart a)).headD 0 = apart a b := by
  cases b <;> simp

theorem nextRowApart (c : Char) (a b : List Char) :
    nextRow c b (b.tails.map (apart a)) = b.tails.map (apart (c :: a)) := by
  induction b with
  | nil => simp [nextRow]
  | cons d b ih =>
    simp only [nextRow, List.tails_cons, List.map_cons, List.tail_cons, List.headD_cons, ih,
      headApart, List.cons.injEq, and_true]
    split
    next same => rw [same, apartSame]
    next other => rw [apartOther other]

theorem rowApart (a b : List Char) : row a b = b.tails.map (apart a) := by
  induction a with
  | nil => exact emptyRowApart b
  | cons c a ih =>
    rw [← nextRowApart, ← ih]
    rfl

theorem apartSwap (a b : List Char) : apart a b = apart b a := by
  fun_induction apart a b with
  | case1 b => simp
  | case2 c a => simp
  | case3 a c b ih => rw [apartSame, ih]
  | case4 c a d b other deleted inserted replaced =>
    rw [apartOther (Ne.symm other), deleted, inserted, replaced]
    omega

theorem apartNear (c : Char) (a b : List Char) :
    apart (c :: a) b ≤ apart a b + 1 ∧ apart a b ≤ apart (c :: a) b + 1 := by
  match b with
  | [] => simp; omega
  | d :: b =>
    have ⟨grown, shrunk⟩ := apartNear d b a
    have ⟨_, shorter⟩ := apartNear c a b
    rw [apartSwap (d :: b) a, apartSwap b a] at grown shrunk
    by_cases same : c = d
    · subst same
      rw [apartSame]
      exact ⟨shrunk, grown⟩
    · rw [apartOther same]
      omega
termination_by a.length + b.length

theorem consNear (near : ∀ x, apart a x ≤ apart b x + 1) (p : Char) (x : List Char) :
    apart (p :: a) x ≤ apart (p :: b) x + 1 := by
  induction x with
  | nil => simpa using near []
  | cons q x ih =>
    by_cases same : p = q
    · subst same
      rw [apartSame, apartSame]
      exact near x
    · rw [apartOther same, apartOther same]
      have := near x
      have := near (q :: x)
      omega

theorem bothNear (c d : Char) (a b : List Char) :
    apart a b ≤ apart (c :: a) (d :: b) ∧ apart (c :: a) (d :: b) ≤ apart a b + 1 := by
  by_cases same : c = d
  · subst same
    rw [apartSame]
    omega
  · have ⟨_, shorter⟩ := apartNear c a b
    have ⟨_, shorter'⟩ := apartNear d b a
    rw [apartSwap (d :: b) a, apartSwap b a] at shorter'
    rw [apartOther same]
    omega

theorem replacedNear (c d : Char) (a x : List Char) :
    apart (c :: a) x ≤ apart (d :: a) x + 1 := by
  cases x with
  | nil => simp
  | cons q x => exact (bothNear c q a x).2.trans (Nat.succ_le_succ (bothNear d q a x).1)

theorem behindNear (near : ∀ x, apart a x ≤ apart b x + 1) (before x : List Char) :
    apart (before ++ a) x ≤ apart (before ++ b) x + 1 := by
  induction before generalizing x with
  | nil => exact near x
  | cons p before ih => exact consNear ih p x

theorem editNear (edit : Edit a b) (x : List Char) : apart a x ≤ apart b x + 1 := by
  cases edit with
  | insert before c after => exact behindNear (fun x => (apartNear c after x).2) before x
  | delete before c after => exact behindNear (fun x => (apartNear c after x).1) before x
  | replace before c d after => exact behindNear (replacedNear c d after) before x

theorem editsFew {n : Nat} (edits : Edits n a b) : apart a b ≤ n := by
  induction edits with
  | none a => exact Nat.le_of_eq (apartSelf a)
  | next edit _ ih => exact (editNear edit _).trans (Nat.succ_le_succ ih)

theorem editsEnough (a b : List Char) : Edits (apart a b) a b := by
  fun_induction apart a b with
  | case1 b => exact .insertAll b
  | case2 c a => exact .deleteAll (c :: a)
  | case3 a c b ih => exact ih.cons c
  | case4 c a d b other deleted inserted replaced =>
    rcases min_choice (apart a (d :: b)) (min (apart (c :: a) b) (apart a b)) with least | least
    · rw [least]
      exact deleted.deleteHead c
    rw [least]
    rcases min_choice (apart (c :: a) b) (apart a b) with least | least
    · rw [least]
      exact inserted.insertHead d
    · rw [least]
      exact replaced.replaceHead c d

end Distance

theorem distanceApart (a b : String) : distance a b = Distance.apart a.toList b.toList := by
  rw [distance, Distance.rowApart, Distance.headApart]

theorem distanceLeast (a b : String) :
    IsLeast {n | Edits n a.toList b.toList} (distance a b) := by
  rw [distanceApart]
  exact ⟨Distance.editsEnough _ _, fun _ edits => Distance.editsFew edits⟩

end KeyForm
