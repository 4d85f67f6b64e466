import KeyForm.Batch.Basic
import KeyForm.Proofs.Apart
import KeyForm.Proofs.Contents
/-! Batches told apart by their listings. Nothing is quoted in a listing, and a name may end
in the sign that closes the settings; but a value is followed by one more setting or by that
sign, and only one of the two fits what comes next. So the text of a listing, from left to
right, leaves no choice of what it lists. -/
namespace KeyForm

def Settings.Legible (s : Settings) : Prop :=
  ∀ p ∈ s.items, isName p.1.toList = true ∧ p.2.readable = true

structure Entry.Legible (e : Entry) : Prop where
  formed : e.Formed
  parts : ∀ part ∈ e.parts, part.readable = true

structure Batch.Legible (b : Batch) : Prop where
  settings : b.settings.Legible
  entries : ∀ e ∈ b.entries, e.Legible

/-- What can stand after settings: it ends a name, and it is not one more setting. -/
structure Beyond (rest : List Char) : Prop where
  stops : Stops rest
  other : ¬ [' ', ':'] <+: rest

/-- The settings after the first one, their closing sign and the rest of the text. -/
def pairsAfter (rest : List Char) : List (String × Element) → List Char
  | [] => '}' :: rest
  | p :: pairs => ' ' :: Settings.pairChars p ++ pairsAfter rest pairs

section
variable {v w : Element} {r s : List Char} {p q : List (String × Element)}

theorem bracePlain {cs : List Char} (plain : ∀ c ∈ cs, isDelimiter c = false) :
    ∀ c ∈ cs ++ ['}'], isDelimiter c = false := by
  refine List.forall_mem_append.mpr ⟨plain, fun c mem => ?_⟩
  rw [List.mem_singleton.mp mem]
  rfl

theorem pairsBraced {cs : List Char} : cs ++ pairsAfter r [] = (cs ++ ['}']) ++ r := by
  simp [pairsAfter]

theorem pairsStop {a : String × Element} : Stops (pairsAfter r (a :: p)) := by
  rintro c ⟨⟩
  decide

theorem pairsGoOn {a : String × Element} : [' ', ':'] <+: pairsAfter r (a :: p) := by
  simp [pairsAfter, Settings.pairChars]

-- A name's text and what follows it could be cut in two ways only where a brace belongs to
-- the name on one side and closes the settings on the other; then what comes after the
-- brace differs.
theorem valueApart (left : v.readable = true) (right : w.readable = true) (beyond : Beyond r)
    (beyond' : Beyond s) (same : v.chars ++ pairsAfter r p = w.chars ++ pairsAfter s q) :
    v = w ∧ pairsAfter r p = pairsAfter s q := by
  have kind := namedApart left right same
  cases named : v.isNamed with
  | false => exact enclosedApart left right named (kind ▸ named) same
  | true =>
    have plain := (namedPlain left named).2
    have plain' := (namedPlain right (kind ▸ named)).2
    cases p with
    | nil =>
      cases q with
      | nil =>
        rw [pairsBraced, pairsBraced] at same
        obtain ⟨chars, rest⟩ := plainApart (bracePlain plain) (bracePlain plain') beyond.stops
          beyond'.stops same
        exact ⟨textSame left right (List.append_cancel_right chars), by rw [rest]⟩
      | cons =>
        rw [pairsBraced] at same
        obtain ⟨_, rest⟩ := plainApart (bracePlain plain) plain' beyond.stops pairsStop same
        exact absurd (rest ▸ pairsGoOn) beyond.other
    | cons =>
      cases q with
      | nil =>
        rw [pairsBraced] at same
        obtain ⟨_, rest⟩ := plainApart plain (bracePlain plain') pairsStop beyond'.stops same
        exact absurd (rest ▸ pairsGoOn) beyond'.other
      | cons => exact elementsApart left right pairsStop pairsStop same

theorem pairApart {a b : String × Element}
    (left : isName a.1.toList = true ∧ a.2.readable = true)
    (right : isName b.1.toList = true ∧ b.2.readable = true) (beyond : Beyond r)
    (beyond' : Beyond s)
    (same : Settings.pairChars a ++ pairsAfter r p = Settings.pairChars b ++ pairsAfter s q) :
    a = b ∧ pairsAfter r p = pairsAfter s q := by
  obtain ⟨name, v⟩ := a
  obtain ⟨name', w⟩ := b
  simp only [Settings.pairChars, List.cons_append, List.append_assoc, List.cons.injEq,
    true_and] at same
  obtain ⟨names, rest⟩ := plainApart (Reader.nameDelimits left.1).2
    (Reader.nameDelimits right.1).2 Reader.stopsBlank Reader.stopsBlank same
  obtain rfl : name = name' := String.toList_injective names
  obtain ⟨values, later⟩ := valueApart left.2 right.2 beyond beyond' (List.cons.inj rest).2
  exact ⟨congrArg (Prod.mk name) values, later⟩

theorem pairsApart (left : ∀ a ∈ p, isName a.1.toList = true ∧ a.2.readable = true)
    (right : ∀ a ∈ q, isName a.1.toList = true ∧ a.2.readable = true) (beyond : Beyond r)
    (beyond' : Beyond s) (same : pairsAfter r p = pairsAfter s q) : p = q ∧ r = s := by
  induction p generalizing q with
  | nil =>
    cases q with
    | nil => exact ⟨rfl, (List.cons.inj same).2⟩
    | cons b q => cases (List.cons.inj same).1
  | cons a p ih =>
    cases q with
    | nil => cases (List.cons.inj same).1
    | cons b q =>
      obtain ⟨first, tail⟩ := List.forall_mem_cons.mp left
      obtain ⟨first', tail'⟩ := List.forall_mem_cons.mp right
      obtain ⟨here, later⟩ := pairApart first first' beyond beyond' (List.cons.inj same).2
      obtain ⟨there, rest⟩ := ih tail tail' later
      exact ⟨by rw [here, there], rest⟩

theorem pairsJoined (a : String × Element) (pairs : List (String × Element))
    (rest : List Char) :
    [' '].intercalate ((a :: pairs).map Settings.pairChars) ++ '}' :: rest =
      Settings.pairChars a ++ pairsAfter rest pairs :=
  (@piecesJoined _ [' '] _ Settings.pairChars (pairsAfter rest) rfl (fun _ _ => rfl) a
    pairs).symm

theorem settingsApart {a b : Settings} (left : a.Legible) (right : b.Legible)
    (beyond : Beyond r) (beyond' : Beyond s) (same : a.chars ++ r = b.chars ++ s) :
    a = b ∧ r = s := by
  obtain ⟨p, _⟩ := a
  obtain ⟨q, _⟩ := b
  simp only [Settings.chars, List.cons_append, List.append_assoc, List.cons.injEq, true_and,
    List.nil_append] at same
  suffices equal : p = q ∧ r = s from ⟨Catalog.ext equal.1, equal.2⟩
  cases p with
  | nil =>
    cases q with
    | nil => exact ⟨rfl, by simpa using same⟩
    | cons b q =>
      rw [pairsJoined] at same
      cases (List.cons.inj same).1
  | cons a p =>
    cases q with
    | nil =>
      rw [pairsJoined] at same
      cases (List.cons.inj same).1
    | cons b q =>
      rw [pairsJoined, pairsJoined] at same
      exact pairsApart left right beyond beyond' (by simp [pairsAfter, same])

theorem literalEnclosed (literal : v.isKeyLiteral = true) : v.isNamed = false := by
  cases v <;> first | rfl | cases literal

theorem formsDiffer {key definition literal : Element} (shape : key.isKeyLiteral = true) :
    (Entry.plain key definition).chars ++ r ≠ (Entry.extended literal).chars ++ s := by
  intro same
  cases key with
  | str | vector => cases (List.cons.inj same).1
  | _ => cases shape

theorem entryApart {a b : Entry} (left : a.Legible) (right : b.Legible) (stops : Stops r)
    (stops' : Stops s) (same : a.chars ++ r = b.chars ++ s) : a = b ∧ r = s := by
  obtain ⟨formed, readable⟩ := left
  obtain ⟨formed', readable'⟩ := right
  cases formed with
  | @plain key definition shape _ =>
    cases formed' with
    | @plain key' definition' shape' _ =>
      simp only [Entry.parts, List.forall_mem_cons] at readable readable'
      simp only [Entry.chars, List.append_assoc] at same
      obtain ⟨keys, later⟩ := enclosedApart readable.1 readable'.1 (literalEnclosed shape)
        (literalEnclosed shape') same
      obtain ⟨definitions, rest⟩ := elementsApart readable.2.1 readable'.2.1 stops stops'
        (List.append_cancel_left later)
      exact ⟨by rw [keys, definitions], rest⟩
    | extended => exact absurd same (formsDiffer shape)
  | extended =>
    cases formed' with
    | plain shape => exact absurd same.symm (formsDiffer shape)
    | extended =>
      simp only [Entry.parts, List.forall_mem_cons] at readable readable'
      simp only [Entry.chars, List.append_assoc] at same
      obtain ⟨same, rest⟩ := enclosedApart readable.1 readable'.1 rfl rfl
        (List.append_cancel_left same)
      exact ⟨by rw [same], rest⟩

end

theorem stopsLine {rest : List Char} : Stops ('\n' :: rest) := by
  rintro c ⟨⟩
  decide

theorem lineChars (e : Entry) : e.line.toList = ' ' :: ' ' :: e.chars ++ ['\n'] := by
  simp [Entry.line, Entry.text, toString]

theorem linesApart {es fs : List Entry} {r s : List Char} (left : ∀ e ∈ es, e.Legible)
    (right : ∀ e ∈ fs, e.Legible) (ends : ∀ c ∈ r.head?, c ≠ ' ') (ends' : ∀ c ∈ s.head?, c ≠ ' ')
    (same : es.flatMap (·.line.toList) ++ r = fs.flatMap (·.line.toList) ++ s) :
    es = fs ∧ r = s := by
  induction es generalizing fs with
  | nil =>
    cases fs with
    | nil => exact ⟨rfl, same⟩
    | cons f fs =>
      simp only [List.flatMap_cons, lineChars, List.flatMap_nil, List.nil_append] at same
      exact absurd rfl (ends ' ' (by simp [same]))
  | cons e es ih =>
    cases fs with
    | nil =>
      simp only [List.flatMap_cons, lineChars, List.flatMap_nil, List.nil_append] at same
      exact absurd rfl (ends' (' ') (by simp [← same]))
    | cons f fs =>
      obtain ⟨first, tail⟩ := List.forall_mem_cons.mp left
      obtain ⟨first', tail'⟩ := List.forall_mem_cons.mp right
      rw [List.flatMap_cons, List.flatMap_cons, lineChars, lineChars] at same
      simp only [List.cons_append, List.append_assoc, List.cons.injEq, true_and,
        List.nil_append] at same
      obtain ⟨here, later⟩ := entryApart first first' stopsLine stopsLine same
      obtain ⟨there, rest⟩ := ih tail tail' (List.cons.inj later).2
      exact ⟨by rw [here, there], rest⟩

/-- The blocks of a listing, the first with this number. -/
def blocksFrom (number : Nat) : List Batch → List Char
  | [] => []
  | b :: rest => (b.block number).toList ++ blocksFrom (number + 1) rest

theorem listingFrom (number : Nat) (batches : List Batch) :
    (String.join (batches.mapIdx fun i b => b.block (i + number))).toList =
      blocksFrom number batches := by
  induction batches generalizing number with
  | nil => rfl
  | cons b rest ih =>
    have next : (fun i (b : Batch) => b.block (i + 1 + number)) =
        fun i b => b.block (i + (number + 1)) := by
      funext i b
      rw [Nat.add_assoc, Nat.add_comm 1]
    rw [List.mapIdx_cons, String.join_cons, String.toList_append, next, ih, Nat.zero_add]
    rfl

theorem blockChars (b : Batch) (number : Nat) :
    (b.block number).toList = "batch ".toList ++ ((toString number).toList ++ ' ' ::
      (b.settings.chars ++ '\n' :: b.entries.flatMap (·.line.toList))) := by
  simp [Batch.block, Settings.text, toString, String.toList_join, List.flatMap_map]

theorem blocksEnd (number : Nat) (batches : List Batch) :
    ∀ c ∈ (blocksFrom number batches).head?, c ≠ ' ' := by
  cases batches with
  | nil => nofun
  | cons b rest =>
    rw [blocksFrom, blockChars]
    rintro c ⟨⟩
    decide

theorem beyondLine {rest : List Char} : Beyond ('\n' :: rest) :=
  ⟨stopsLine, by simp⟩

theorem blocksApart {as bs : List Batch} {number : Nat} (left : ∀ b ∈ as, b.Legible)
    (right : ∀ b ∈ bs, b.Legible) (same : blocksFrom number as = blocksFrom number bs) :
    as = bs := by
  induction as generalizing bs number with
  | nil =>
    cases bs with
    | nil => rfl
    | cons b bs =>
      rw [blocksFrom, blocksFrom, blockChars] at same
      cases same
  | cons a as ih =>
    cases bs with
    | nil =>
      rw [blocksFrom, blocksFrom, blockChars] at same
      cases same
    | cons b bs =>
      obtain ⟨first, tail⟩ := List.forall_mem_cons.mp left
      obtain ⟨first', tail'⟩ := List.forall_mem_cons.mp right
      rw [blocksFrom, blocksFrom, blockChars, blockChars] at same
      simp only [List.append_assoc, List.append_cancel_left_eq, List.cons_append, List.cons.injEq,
        true_and] at same
      obtain ⟨settings, later⟩ := settingsApart first.settings first'.settings beyondLine
        beyondLine same
      obtain ⟨entries, rest⟩ := linesApart first.entries first'.entries (blocksEnd _ _)
        (blocksEnd _ _) (List.cons.inj later).2
      have here : a = b := by
        obtain ⟨x, es⟩ := a
        obtain ⟨y, fs⟩ := b
        obtain rfl : x = y := settings
        exact congrArg (Batch.mk x) entries
      rw [here, ih tail tail' rest]

theorem callChars (call : Settings × Entry) : (callLine call).toList =
    "bind ".toList ++ (call.1.chars ++ ' ' :: (call.2.chars ++ ['\n'])) := by
  simp [callLine, Settings.text, Entry.text, toString]

theorem beyondEntry {e : Entry} {rest : List Char} (legible : e.Legible) :
    Beyond (' ' :: (e.chars ++ rest)) := by
  refine ⟨Reader.stopsBlank, ?_⟩
  cases legible.formed with
  | @plain key _ literal =>
    cases key with
    | str | vector => simp [Entry.chars, Element.chars]
    | _ => cases literal
  | extended => simp [Entry.chars]

theorem callsApart {p q : List (Settings × Entry)}
    (left : ∀ call ∈ p, call.1.Legible ∧ call.2.Legible)
    (right : ∀ call ∈ q, call.1.Legible ∧ call.2.Legible)
    (same : p.flatMap (fun call => (callLine call).toList) =
      q.flatMap fun call => (callLine call).toList) : p = q := by
  induction p generalizing q with
  | nil =>
    cases q with
    | nil => rfl
    | cons call q =>
      rw [List.flatMap_cons, callChars] at same
      cases same
  | cons call p ih =>
    cases q with
    | nil =>
      rw [List.flatMap_cons, callChars] at same
      cases same
    | cons call' q =>
      obtain ⟨⟨settings, entry⟩, tail⟩ := List.forall_mem_cons.mp left
      obtain ⟨⟨settings', entry'⟩, tail'⟩ := List.forall_mem_cons.mp right
      rw [List.flatMap_cons, List.flatMap_cons, callChars, callChars] at same
      simp only [List.append_assoc, List.cons_append, List.append_cancel_left_eq,
        List.nil_append] at same
      obtain ⟨firsts, later⟩ := settingsApart settings settings' (beyondEntry entry)
        (beyondEntry entry') same
      obtain ⟨seconds, rest⟩ := entryApart entry entry' stopsLine stopsLine
        (List.cons.inj later).2
      rw [Prod.ext firsts seconds, ih tail tail' (List.cons.inj rest).2]

/-! Whatever is compiled from a text is legible, under any registry. -/

theorem targetsReadable {e : Element} (readable : e.readable = true) :
    e.toTargets.readable = true := by
  have single : Element.allReadable [e] = true := by simp [Element.allReadable, readable]
  cases e with
  | list => exact readable
  | _ => exact single

theorem normalReadable {spec : OptionSpec} {value : Element} (readable : value.readable = true) :
    (spec.normalize value).readable = true := by
  unfold OptionSpec.normalize ValueShape.normalize
  split
  · exact targetsReadable readable
  · exact readable

theorem originLegible {registry : Registry} {es : List Element} {p : String × Element}
    (readable : ∀ e ∈ es, e.readable = true) (origin : Origin registry es p) :
    isName p.1.toList = true ∧ p.2.readable = true := by
  cases origin with
  | context place mem target =>
    have keymaps : isName keymapsName.toList = true := by decide
    have states : isName statesName.toList = true := by decide
    exact ⟨place.elim (· ▸ keymaps) (· ▸ states), targetsReadable (readable _ mem)⟩
  | option named mem => exact ⟨readable _ named, normalReadable (readable _ mem)⟩

theorem compiledLegible {source : String} {c : Compiler} {es : List Element}
    {batches : List Batch} (read : readForm source = .ok es)
    (compiled : c.compile es = .ok batches) : ∀ b ∈ batches, b.Legible := by
  have readable := readReadable read
  intro b mem
  have held := compiledHeld compiled b mem
  refine ⟨fun p mem => originLegible readable (held.settings p mem), fun e mem => ?_⟩
  obtain ⟨formed, within⟩ := held.entries e mem
  exact ⟨formed, fun part mem => readable part (within mem)⟩

theorem callsLegible {batches : List Batch} (legible : ∀ b ∈ batches, b.Legible) :
    ∀ call ∈ batches.flatMap Batch.calls, call.1.Legible ∧ call.2.Legible := by
  intro call mem
  obtain ⟨b, here, mem⟩ := List.mem_flatMap.mp mem
  obtain ⟨e, entry, rfl⟩ := List.mem_map.mp mem
  exact ⟨(legible b here).settings, (legible b here).entries e entry⟩

theorem listingsTell {source source' : String} {c c' : Compiler} {es es' : List Element}
    {batches batches' : List Batch} (read : readForm source = .ok es)
    (compiled : c.compile es = .ok batches) (read' : readForm source' = .ok es')
    (compiled' : c'.compile es' = .ok batches') :
    (listing batches = listing batches' → batches = batches') ∧
    (callListing batches = callListing batches' →
      batches.flatMap Batch.calls = batches'.flatMap Batch.calls) := by
  have left := compiledLegible read compiled
  have right := compiledLegible read' compiled'
  constructor
  · intro same
    have blocks := congrArg String.toList same
    rw [listing, listing, listingFrom, listingFrom] at blocks
    exact blocksApart left right blocks
  · intro same
    have lines := congrArg String.toList same
    simp only [callListing, String.toList_join, List.flatMap_map] at lines
    exact callsApart (callsLegible left) (callsLegible right) lines

def bracedForm (value : String) : List Element :=
  [.separator, .keyword "predicate", .symbol value, .str "k", .symbol "->"]

def bracedBatches (value : String) : List Batch :=
  [⟨Settings.set .empty "predicate" (.symbol value), [.plain (.str "k") (.symbol "->")]⟩]

/-- The value of the one ends in the sign that closes the settings of the other. -/
theorem bracedTold :
    readForm "| :predicate a\"k\"->" = .ok (bracedForm "a") ∧
    readForm "| :predicate 'a\x7d \"k\" ->" = .ok (bracedForm "a\x7d") ∧
    Compiler.compile ⟨.builtin, ⟨false, .all⟩⟩ (bracedForm "a") = .ok (bracedBatches "a") ∧
    Compiler.compile ⟨.builtin, ⟨true, .all⟩⟩ (bracedForm "a\x7d") =
      .ok (bracedBatches "a\x7d") ∧
    (listing (bracedBatches "a") = listing (bracedBatches "a\x7d") →
      bracedBatches "a" = bracedBatches "a\x7d") ∧
    (callListing (bracedBatches "a") = callListing (bracedBatches "a\x7d") →
      (bracedBatches "a").flatMap Batch.calls = (bracedBatches "a\x7d").flatMap Batch.calls) :=
  have read : readForm "| :predicate a\"k\"->" = .ok (bracedForm "a") := rfl
  have read' : readForm "| :predicate 'a\x7d \"k\" ->" = .ok (bracedForm "a\x7d") := rfl
  ⟨read, read', rfl, rfl,
    @listingsTell _ _ ⟨.builtin, ⟨false, .all⟩⟩ ⟨.builtin, ⟨true, .all⟩⟩ _ _ _ _ read rfl
      read' rfl⟩

end KeyForm
