import Mathlib.Data.List.DropRight
import Mathlib.Data.List.TakeDrop
import Voxel.Json.Reader
import Voxel.Json.Writer

/-!
# Documents and their texts

A document that is written on several lines is read as it was (`ofText_pretty`), if it is `Plain`: all its
texts are there, all its numbers are whole and nothing in it is broken off. What is read of a value ends
where its text ends, whatever comes behind it (`Reads`).
-/

namespace Voxel.Json

namespace Reader

/-! ### Blanks -/

theorem skip_cons {c : Char} (solid : isBlank c = false) (cs : List Char) : skip (c :: cs) = c :: cs :=
  List.dropWhile_cons_of_neg (by simp [solid])

theorem skip_append {blanks : List Char} (blank : ∀ c ∈ blanks, isBlank c = true) (cs : List Char) :
    skip (blanks ++ cs) = skip cs :=
  List.dropWhile_append_of_pos blank

theorem skip_skip (cs : List Char) : skip (skip cs) = skip cs := List.dropWhile_idempotent _ _

theorem value?_skip (fuel : Nat) (cs : List Char) : value? fuel (skip cs) = value? fuel cs := by
  cases fuel with
  | zero => rfl
  | succ fuel => rw [value?, value?, skip_skip]

theorem items_skip (fuel : Nat) (cs : List Char) (done : List Json) :
    items fuel (skip cs) done = items fuel cs done := by
  cases fuel with
  | zero => rfl
  | succ fuel => rw [items, items, value?_skip]

theorem fields_skip (fuel : Nat) (cs : List Char) (done : List (Option String × Json)) :
    fields fuel (skip cs) done = fields fuel cs done := by
  cases fuel with
  | zero => rfl
  | succ fuel => rw [fields, fields, skip_skip]

/-! ### Texts -/

theorem escaped_cases (c : Char) : (∃ e, escaped c = ['\\', e] ∧ escape? e = some c) ∨
    (c.toNat < 0x20 ∧
      escaped c = ['\\', 'u', '0', '0', hexDigit (c.toNat / 16), hexDigit (c.toNat % 16)]) ∨
    (escaped c = [c] ∧ c ≠ '"' ∧ c ≠ '\\' ∧ 0x20 ≤ c.toNat) := by
  have letter : ∀ {d e : Char}, c = d → escape? e = some d →
      ∃ f, ['\\', e] = ['\\', f] ∧ escape? f = some c := by
    rintro d e rfl named
    exact ⟨e, rfl, named⟩
  unfold escaped
  repeat' split
  · exact Or.inl (letter ‹_› rfl)
  · exact Or.inl (letter ‹_› rfl)
  · exact Or.inl (letter ‹_› rfl)
  · exact Or.inl (letter ‹_› rfl)
  · exact Or.inl (letter ‹_› rfl)
  · exact Or.inl (letter ‹_› rfl)
  · exact Or.inl (letter ‹_› rfl)
  · exact Or.inr (Or.inl ⟨‹_›, rfl⟩)
  · exact Or.inr (Or.inr ⟨rfl, ‹_›, ‹_›, Nat.le_of_not_lt ‹_›⟩)

theorem hex?_hexDigit : ∀ n : Fin 32, hex? '0' '0' (hexDigit (n / 16)) (hexDigit (n % 16)) = some n.val := by
  decide

theorem pieces_escaped (c : Char) : ∃ p, (∀ ps, join (p :: ps) = (join ps).map (c :: ·)) ∧
    ∀ fuel rest done, pieces (fuel + 1) (escaped c ++ rest) done = pieces fuel rest (p :: done) := by
  obtain ⟨e, form, named⟩ | ⟨control, form⟩ | ⟨form, quote, backslash, shown⟩ := escaped_cases c
  · refine ⟨.char c, fun _ => rfl, fun fuel rest done => ?_⟩
    have other : e ≠ 'u' := by
      rintro rfl
      cases named
    rw [form, List.cons_append, List.cons_append, List.nil_append, pieces, named]
    exact fun _ _ _ _ _ same => absurd same other
  · refine ⟨.unit c.toNat, fun ps => ?_, fun fuel rest done => ?_⟩
    · have outside : ¬ (0xD800 ≤ c.toNat ∧ c.toNat < 0xDC00) := by omega
      have outsideToo : ¬ (0xDC00 ≤ c.toNat ∧ c.toNat < 0xE000) := by omega
      rw [join.eq_def]
      dsimp only
      rw [if_neg outside, if_neg outsideToo, Char.ofNat_toNat]
    · have digits := hex?_hexDigit ⟨c.toNat, control⟩
      dsimp only at digits
      simp only [form, List.cons_append, List.nil_append, pieces, digits]
  · refine ⟨.char c, fun _ => rfl, fun fuel rest done => ?_⟩
    have low : ¬ c.toNat < 0x20 := Nat.not_lt.mpr shown
    rw [form, List.cons_append, List.nil_append, pieces]
    · exact if_neg low
    · exact quote
    · exact fun _ _ _ _ _ same _ => backslash same
    · exact fun _ _ same _ => backslash same

theorem pieces_flatMap (cs : List Char) : ∃ ps, join ps = some cs ∧ ∀ fuel rest done,
    cs.length < fuel →
      pieces fuel (cs.flatMap escaped ++ '"' :: rest) done = some (done.reverse ++ ps, rest) := by
  induction cs with
  | nil =>
    refine ⟨[], rfl, fun fuel rest done enough => ?_⟩
    obtain ⟨fuel, rfl⟩ := Nat.exists_eq_succ_of_ne_zero (Nat.ne_of_gt enough)
    rw [List.flatMap_nil, List.nil_append, pieces, List.append_nil]
  | cons c cs ih =>
    obtain ⟨p, stands, piece⟩ := pieces_escaped c
    obtain ⟨ps, joined, run⟩ := ih
    refine ⟨p :: ps, by rw [stands, joined]; rfl, fun fuel rest done enough => ?_⟩
    obtain ⟨fuel, rfl⟩ := Nat.exists_eq_succ_of_ne_zero (Nat.ne_of_gt (Nat.zero_lt_of_lt enough))
    rw [List.flatMap_cons, List.append_assoc, piece, run fuel rest _ (Nat.lt_of_succ_lt_succ enough),
      List.reverse_cons, List.append_assoc]
    rfl

theorem length_le_flatMap (cs : List Char) : cs.length ≤ (cs.flatMap escaped).length := by
  induction cs with
  | nil => exact Nat.le_refl _
  | cons c cs ih =>
    have full : 1 ≤ (escaped c).length := by
      obtain ⟨_, form, _⟩ | ⟨_, form⟩ | ⟨form, _⟩ := escaped_cases c <;> rw [form] <;> simp
    rw [List.flatMap_cons, List.length_append, List.length_cons]
    omega

theorem toList_quoted (s : String) : (quoted s).toList = '"' :: (s.toList.flatMap escaped ++ ['"']) := by
  simp only [quoted, String.toList_append, String.toList_ofList]
  rfl

theorem string?_escaped (s : String) (rest : List Char) :
    string? (s.toList.flatMap escaped ++ '"' :: rest) = some (some s, rest) := by
  obtain ⟨ps, joined, run⟩ := pieces_flatMap s.toList
  have enough := length_le_flatMap s.toList
  rw [string?, run _ rest [] (by rw [List.length_append]; omega), Option.map_some, List.reverse_nil,
    List.nil_append]
  dsimp only
  rw [joined, Option.map_some, String.ofList_toList]

/-! ### Numerals -/

def Ends (rest : List Char) : Prop :=
  ∀ c tail, rest = c :: tail → c.isDigit = false ∧ c ≠ '.' ∧ c ≠ 'e' ∧ c ≠ 'E'

theorem digits_append {ds rest : List Char} (numeral : ∀ c ∈ ds, c.isDigit = true) (ends : Ends rest) :
    digits (ds ++ rest) = (ds, rest) := by
  have stop : rest.takeWhile Char.isDigit = [] ∧ rest.dropWhile Char.isDigit = rest := by
    cases rest with
    | nil => exact ⟨rfl, rfl⟩
    | cons c tail =>
      have other : ¬ c.isDigit = true := by rw [(ends c tail rfl).1]; exact Bool.false_ne_true
      exact ⟨List.takeWhile_cons_of_neg other, List.dropWhile_cons_of_neg other⟩
  rw [digits, List.span_eq_takeWhile_dropWhile, List.takeWhile_append_of_pos numeral,
    List.dropWhile_append_of_pos numeral, stop.1, stop.2, List.append_nil]

theorem fraction?_eq {rest : List Char} (ends : Ends rest) : fraction? rest = some (false, rest) := by
  cases rest with
  | nil => rfl
  | cons c tail =>
    obtain ⟨_, point, small, capital⟩ := ends c tail rfl
    unfold fraction?
    split
    · rename_i same
      exact absurd (List.cons.inj same).1 point
    · simp [small, capital]

theorem head?_toDigits {n : Nat} (zero : (Nat.toDigits 10 n).head? = some '0') : n = 0 := by
  induction n using Nat.strongRecOn with
  | ind n ih =>
    by_cases small : n < 10
    · rw [Nat.toDigits_of_lt_base small] at zero
      have digit : n.digitChar = '0' := Option.some.inj zero
      have all : ∀ k : Fin 10, k.val.digitChar = '0' → k.val = 0 := by decide
      exact all ⟨n, small⟩ digit
    · have large : 10 ≤ n := Nat.le_of_not_lt small
      rw [Nat.toDigits_of_base_le (by decide) large,
        List.head?_append_of_ne_nil _ Nat.toDigits_ne_nil] at zero
      have := ih (n / 10) (by omega) zero
      omega

theorem number?_toDigits (negative : Bool) (n : Nat) {rest : List Char} (ends : Ends rest) :
    number? negative (Nat.toDigits 10 n ++ rest) =
      some (if negative then if n = 0 then .other else .whole (-n) else .whole n, rest) := by
  have numeral : ∀ c ∈ Nat.toDigits 10 n, c.isDigit = true :=
    fun c => Nat.isDigit_of_mem_toDigits (by decide) (by decide)
  -- a leading zero is refused, unless it is all there is
  have canonical : ((Nat.toDigits 10 n).isEmpty ||
      ((Nat.toDigits 10 n).length > 1 && (Nat.toDigits 10 n).head? = some '0')) = false := by
    rw [List.isEmpty_eq_false_iff.mpr Nat.toDigits_ne_nil, Bool.false_or, Bool.and_eq_false_iff]
    by_cases zero : (Nat.toDigits 10 n).head? = some '0'
    · rw [head?_toDigits zero]
      exact Or.inl (by decide)
    · exact Or.inr (decide_eq_false zero)
  have read : value (Nat.toDigits 10 n) = n := Nat.ofDigitChars_ten_toDigits
  unfold number?
  rw [digits_append numeral ends]
  dsimp only
  rw [canonical, if_neg Bool.false_ne_true, fraction?_eq ends, read]
  cases negative <;> rfl

theorem value?_numeral (fuel n : Nat) {rest : List Char} (ends : Ends rest) :
    value? (fuel + 1) (Nat.toDigits 10 n ++ rest) = (.number (.whole n), some rest) := by
  obtain ⟨c, ds, form⟩ := List.exists_cons_of_ne_nil (Nat.toDigits_ne_nil (n := n) (b := 10))
  have digit : c.isDigit = true :=
    Nat.isDigit_of_mem_toDigits (n := n) (by decide) (by decide) (form ▸ List.mem_cons_self)
  have other : ∀ d : Char, d.isDigit = false → c ≠ d := by
    rintro d none rfl
    cases digit.symm.trans none
  have solid : isBlank c = false := by
    simp [isBlank, other ' ' rfl, other '\n' rfl, other '\t' rfl, other '\r' rfl]
  have read := number?_toDigits false n ends
  rw [form, List.cons_append] at read ⊢
  rw [value?, skip_cons solid]
  split
  all_goals rename_i same
  case h_8 =>
    rw [read]
    rfl
  all_goals exact absurd (List.cons.inj same).1 (other _ rfl)

end Reader

/-! ### Values -/

open Reader

/-- A value whose texts are there, whose numbers are whole, and of which nothing is broken off. -/
inductive Plain : Json → Prop
  | null : Plain .null
  | bool (b : Bool) : Plain (.bool b)
  | number (n : Int) : Plain (.number (.whole n))
  | text (s : String) : Plain (.text s)
  | list {items : List Json} (each : ∀ j ∈ items, Plain j) : Plain (.list items)
  | record {fields : List (String × Json)} (each : ∀ f ∈ fields, Plain f.2) : Plain (.record fields)

/-- The text of a value is read as the value up to where it ends. -/
def Reads (j : Json) : Prop := ∀ level fuel rest, Ends rest → 2 * (j.pretty level).toList.length ≤ fuel →
  value? fuel ((j.pretty level).toList ++ rest) = (j, some rest)

theorem reads_of_text {j : Json} {c : Char} {cs : List Char}
    (text : ∀ level, (j.pretty level).toList = c :: cs)
    (run : ∀ fuel rest, Ends rest → value? (fuel + 1) (c :: cs ++ rest) = (j, some rest)) : Reads j := by
  intro level fuel rest ends enough
  rw [text, List.length_cons] at enough
  obtain ⟨fuel, rfl⟩ := Nat.exists_eq_add_of_le' (show 1 ≤ fuel by omega)
  rw [text, run fuel rest ends]

theorem ends_cons {c : Char} (other : c.isDigit = false ∧ c ≠ '.' ∧ c ≠ 'e' ∧ c ≠ 'E')
    (rest : List Char) : Ends (c :: rest) := by
  rintro d tail same
  obtain ⟨rfl, rfl⟩ := List.cons.inj same
  exact other

theorem toList_pushn (s : String) (c : Char) (n : Nat) :
    (s.pushn c n).toList = s.toList ++ List.replicate n c := by
  rw [String.pushn_eq_repeat_push]
  induction n with
  | zero => exact (List.append_nil _).symm
  | succ n ih => rw [Nat.repeat, String.toList_push, ih, List.append_assoc, List.replicate_succ']

theorem toList_newline (level : Nat) :
    (newline level).toList = '\n' :: List.replicate (2 * level) ' ' := by
  rw [newline, String.toList_append, toList_pushn]
  rfl

theorem skip_newline (level : Nat) (cs : List Char) : skip ((newline level).toList ++ cs) = skip cs := by
  refine skip_append (fun c member => ?_) cs
  rw [toList_newline] at member
  rcases List.mem_cons.mp member with rfl | member
  · rfl
  · rw [List.eq_of_mem_replicate member]
    rfl

theorem value?_newline (level fuel : Nat) (cs : List Char) :
    value? fuel ((newline level).toList ++ cs) = value? fuel cs := by
  rw [← value?_skip, skip_newline, value?_skip]

theorem ends_newline (level : Nat) (cs : List Char) : Ends ((newline level).toList ++ cs) := by
  rw [toList_newline, List.cons_append]
  exact ends_cons (by decide) _

def joined (texts : List String) : List Char := (",".intercalate texts).toList

theorem joined_singleton (a : String) : joined [a] = a.toList := by
  simp [joined]

theorem joined_cons (a b : String) (texts : List String) :
    joined (a :: b :: texts) = a.toList ++ ',' :: joined (b :: texts) := by
  simp [joined]

/-! ### Lists -/

theorem items_joined {js : List Json} (full : js ≠ []) (each : ∀ j ∈ js, Reads j) (level after : Nat)
    {fuel : Nat} (enough : 2 * (joined (prettyItems level js)).length < fuel) (rest : List Char)
    (done : List Json) :
    items fuel (joined (prettyItems level js) ++ ((newline after).toList ++ ']' :: rest)) done =
      (.array (done.reverse ++ js) true, some rest) := by
  induction js generalizing fuel done with
  | nil => exact absurd rfl full
  | cons j js ih =>
    obtain ⟨first, later⟩ := List.forall_mem_cons.mp each
    obtain ⟨fuel, rfl⟩ := Nat.exists_eq_succ_of_ne_zero (Nat.ne_of_gt (Nat.zero_lt_of_lt enough))
    cases js with
    | nil =>
      -- the line of the bracket ends the last item
      rw [prettyItems, prettyItems, joined_singleton, String.toList_append] at enough ⊢
      rw [List.length_append] at enough
      rw [items, List.append_assoc, value?_newline, first level fuel _ (ends_newline _ _) (by omega)]
      dsimp only
      rw [skip_newline, skip_cons rfl, List.reverse_cons]
      rfl
    | cons k js =>
      rw [prettyItems, prettyItems, joined_cons, ← prettyItems, String.toList_append] at enough ⊢
      rw [List.length_append, List.length_append, List.length_cons] at enough
      rw [items, List.append_assoc, List.append_assoc, List.cons_append, value?_newline,
        first level fuel _ (ends_cons (by decide) _) (by omega)]
      dsimp only
      rw [skip_cons rfl]
      change items fuel _ (j :: done) = _
      rw [ih (List.cons_ne_nil _ _) later (by omega), List.reverse_cons, List.append_assoc]
      rfl

theorem value?_bracket (fuel : Nat) (cs : List Char) : value? (fuel + 1) ('[' :: cs) =
    match skip cs with
    | ']' :: rest => (.array [] true, some rest)
    | rest => items fuel rest [] := rfl

theorem items_bracket (fuel : Nat) (rest : List Char) (done : List Json) :
    items (fuel + 2) (']' :: rest) done = (.array (.broken :: done).reverse false, none) := rfl

theorem reads_list {js : List Json} (each : ∀ j ∈ js, Reads j) : Reads (.list js) := by
  cases js with
  | nil =>
    have text : ∀ level, (pretty level (.list [])).toList = ['[', ']'] := by
      simp [list, pretty, compact, compactItems]
    exact reads_of_text text fun _ _ _ => rfl
  | cons j js =>
    intro level fuel rest ends enough
    have text : (pretty level (.list (j :: js))).toList =
        '[' :: (joined (prettyItems (level + 1) (j :: js)) ++ ((newline level).toList ++ [']'])) := by
      simp only [list, pretty, String.toList_append, joined, List.append_assoc]
      rfl
    rw [text] at enough ⊢
    simp only [List.length_cons, List.length_append] at enough
    obtain ⟨fuel, rfl⟩ := Nat.exists_eq_add_of_le' (show 3 ≤ fuel by omega)
    have run := items_joined (List.cons_ne_nil j js) each (level + 1) level
      (show 2 * (joined (prettyItems (level + 1) (j :: js))).length < fuel + 2 by omega) rest []
    rw [← items_skip] at run
    rw [List.cons_append, value?_bracket, List.append_assoc, List.append_assoc, List.singleton_append]
    split
    · -- no item begins like the end of a list
      rename_i same
      rw [same, items_bracket] at run
      cases run
    · exact run

/-! ### Records -/

def named (f : String × Json) : Option String × Json := (some f.1, f.2)

theorem record_eq (fs : List (String × Json)) : record fs = .object (fs.map named) true := rfl

theorem prettyFields_named (level : Nat) (f : String × Json) (fs : List (Option String × Json)) :
    prettyFields level (named f :: fs) =
      (newline level ++ quoted f.1 ++ ": " ++ f.2.pretty level) :: prettyFields level fs := rfl

theorem toList_field (level : Nat) (k : String) (j : Json) :
    (newline level ++ quoted k ++ ": " ++ j.pretty level).toList = (newline level).toList ++
      '"' :: (k.toList.flatMap escaped ++ '"' :: ':' :: ' ' :: (j.pretty level).toList) := by
  simp [toList_quoted]

theorem fields_quote (fuel : Nat) (cs : List Char) (done : List (Option String × Json)) :
    fields (fuel + 1) ('"' :: cs) done =
      match string? cs with
      | none => (.object done.reverse false, none)
      | some (k, rest) =>
        match skip rest with
        | ':' :: rest =>
          match value? fuel rest with
          | (j, none) => (.object ((k, j) :: done).reverse false, none)
          | (j, some rest) =>
            match skip rest with
            | '\x7d' :: rest => (.object ((k, j) :: done).reverse true, some rest)
            | ',' :: rest => fields fuel rest ((k, j) :: done)
            | _ => (.object ((k, j) :: done).reverse false, none)
        | _ => (.object ((k, .broken) :: done).reverse false, none) := rfl

theorem fields_field {j : Json} (reads : Reads j) (level : Nat) (k : String) {fuel : Nat}
    (enough : 2 * (j.pretty level).toList.length ≤ fuel) {tail : List Char} (ends : Ends tail)
    (done : List (Option String × Json)) :
    fields (fuel + 1)
        ((newline level ++ quoted k ++ ": " ++ j.pretty level).toList ++ tail) done =
      match skip tail with
      | '\x7d' :: rest => (.object (named (k, j) :: done).reverse true, some rest)
      | ',' :: rest => fields fuel rest (named (k, j) :: done)
      | _ => (.object (named (k, j) :: done).reverse false, none) := by
  have value : value? fuel (' ' :: ((j.pretty level).toList ++ tail)) = (j, some tail) := by
    rw [← value?_skip, show skip (' ' :: ((j.pretty level).toList ++ tail)) =
      skip ((j.pretty level).toList ++ tail) from rfl, value?_skip, reads level fuel tail ends enough]
  rw [toList_field, ← fields_skip, List.append_assoc, skip_newline, fields_skip, List.cons_append,
    List.append_assoc, fields_quote, List.cons_append, string?_escaped]
  dsimp only
  rw [List.cons_append, List.cons_append, skip_cons rfl]
  change (match value? fuel (' ' :: ((j.pretty level).toList ++ tail)) with
    | (j, none) => _
    | (j, some rest) => _) = _
  rw [value]
  rfl

theorem fields_joined {fs : List (String × Json)} (full : fs ≠ []) (each : ∀ f ∈ fs, Reads f.2)
    (level after : Nat) {fuel : Nat}
    (enough : 2 * (joined (prettyFields level (fs.map named))).length < fuel) (rest : List Char)
    (done : List (Option String × Json)) :
    fields fuel (joined (prettyFields level (fs.map named)) ++
        ((newline after).toList ++ '\x7d' :: rest)) done =
      (.object (done.reverse ++ fs.map named) true, some rest) := by
  induction fs generalizing fuel done with
  | nil => exact absurd rfl full
  | cons f fs ih =>
    obtain ⟨first, later⟩ := List.forall_mem_cons.mp each
    obtain ⟨fuel, rfl⟩ := Nat.exists_eq_succ_of_ne_zero (Nat.ne_of_gt (Nat.zero_lt_of_lt enough))
    -- the fuel is counted by the text of the fields, of which the value is a part
    have inside : (f.2.pretty level).toList.length ≤
        (newline level ++ quoted f.1 ++ ": " ++ f.2.pretty level).toList.length := by
      rw [String.toList_append, List.length_append]
      omega
    cases fs with
    | nil =>
      rw [List.map_cons, List.map_nil, prettyFields_named, prettyFields, joined_singleton] at enough ⊢
      rw [fields_field first level f.1 (by omega) (ends_newline _ _), skip_newline,
        skip_cons rfl, List.reverse_cons]
      rfl
    | cons g fs =>
      rw [List.map_cons, prettyFields_named, List.map_cons, prettyFields_named, joined_cons,
        ← prettyFields_named, ← List.map_cons] at enough ⊢
      rw [List.length_append, List.length_cons] at enough
      rw [List.append_assoc, List.cons_append,
        fields_field first level f.1 (by omega) (ends_cons (by decide) _), skip_cons rfl]
      change fields fuel _ (named f :: done) = _
      rw [ih (List.cons_ne_nil _ _) later (by omega), List.reverse_cons, List.append_assoc]
      rfl

theorem value?_brace (fuel : Nat) (cs : List Char) : value? (fuel + 1) ('\x7b' :: cs) =
    match skip cs with
    | '\x7d' :: rest => (.object [] true, some rest)
    | rest => fields fuel rest [] := rfl

theorem fields_brace (fuel : Nat) (rest : List Char) (done : List (Option String × Json)) :
    fields (fuel + 1) ('\x7d' :: rest) done = (.object done.reverse false, none) := rfl

theorem reads_record {fs : List (String × Json)} (each : ∀ f ∈ fs, Reads f.2) : Reads (.record fs) := by
  cases fs with
  | nil =>
    have text : ∀ level, (pretty level (.record [])).toList = ['\x7b', '\x7d'] := by
      simp [record, pretty, compact, compactFields]
    exact reads_of_text text fun _ _ _ => rfl
  | cons f fs =>
    intro level fuel rest ends enough
    have text : (pretty level (.record (f :: fs))).toList = '\x7b' ::
        (joined (prettyFields (level + 1) ((f :: fs).map named)) ++
          ((newline level).toList ++ ['\x7d'])) := by
      simp only [record_eq, List.map_cons, pretty, String.toList_append, joined, List.append_assoc]
      rfl
    rw [text] at enough ⊢
    simp only [List.length_cons, List.length_append] at enough
    obtain ⟨fuel, rfl⟩ := Nat.exists_eq_add_of_le' (show 3 ≤ fuel by omega)
    have run := fields_joined (List.cons_ne_nil f fs) each (level + 1) level
      (show 2 * (joined (prettyFields (level + 1) ((f :: fs).map named))).length < fuel + 2 by omega)
      rest []
    rw [← fields_skip] at run
    rw [List.cons_append, value?_brace, List.append_assoc, List.append_assoc, List.singleton_append]
    split
    · -- no field begins like the end of a record
      rename_i same
      rw [same, fields_brace] at run
      cases run
    · exact run

/-! ### Documents -/

theorem value?_minus (fuel : Nat) (cs : List Char) : value? (fuel + 1) ('-' :: cs) =
    match number? true cs with
    | some (n, rest) => (.number n, some rest)
    | none => (.broken, none) := rfl

theorem reads_number (n : Int) : Reads (.number (.whole n)) := by
  cases n with
  | ofNat m =>
    obtain ⟨c, ds, form⟩ := List.exists_cons_of_ne_nil (Nat.toDigits_ne_nil (n := m) (b := 10))
    have text : ∀ level, (pretty level (.number (.whole (.ofNat m)))).toList = c :: ds :=
      fun _ => form ▸ Nat.toList_repr
    exact reads_of_text text fun fuel rest ends => form ▸ value?_numeral fuel m ends
  | negSucc m =>
    have text : ∀ level, (pretty level (.number (.whole (.negSucc m)))).toList =
        '-' :: Nat.toDigits 10 (m + 1) := by
      simp [pretty, compact, Int.repr]
    refine reads_of_text text fun fuel rest ends => ?_
    rw [List.cons_append, value?_minus, number?_toDigits true (m + 1) ends]
    rfl

theorem value?_quote (fuel : Nat) (cs : List Char) : value? (fuel + 1) ('"' :: cs) =
    match string? cs with
    | some (s, rest) => (.string s, some rest)
    | none => (.broken, none) := rfl

theorem reads_text (s : String) : Reads (.text s) := by
  have text : ∀ level, (pretty level (.text s)).toList = '"' :: (s.toList.flatMap escaped ++ ['"']) := by
    intro level
    rw [← toList_quoted]
    simp [text, pretty, compact]
  refine reads_of_text text fun fuel rest ends => ?_
  rw [List.cons_append, List.append_assoc, List.singleton_append, value?_quote, string?_escaped]
  rfl

theorem Plain.reads {j : Json} (plain : j.Plain) : Reads j := by
  induction plain with
  | null =>
    have text : ∀ level, (pretty level .null).toList = ['n', 'u', 'l', 'l'] := by
      simp [pretty, compact]
    exact reads_of_text text fun _ _ _ => rfl
  | bool b =>
    cases b with
    | false =>
      have text : ∀ level, (pretty level (.bool false)).toList = ['f', 'a', 'l', 's', 'e'] := by
        simp [pretty, compact]
      exact reads_of_text text fun _ _ _ => rfl
    | true =>
      have text : ∀ level, (pretty level (.bool true)).toList = ['t', 'r', 'u', 'e'] := by
        simp [pretty, compact]
      exact reads_of_text text fun _ _ _ => rfl
  | number n => exact reads_number n
  | text s => exact reads_text s
  | list _ each => exact reads_list each
  | record _ each => exact reads_record each

/-- A plain document is read from its text as it was written. -/
theorem Plain.ofText_pretty {j : Json} (plain : j.Plain) : Document.ofText (j.pretty 0) = ⟨j, true⟩ := by
  have run := plain.reads 0 (2 * (j.pretty 0).toList.length + 2) [] nofun (by omega)
  rw [List.append_nil] at run
  unfold Document.ofText
  dsimp only
  rw [run]
  rfl

end Voxel.Json
