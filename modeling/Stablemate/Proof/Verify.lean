import Stablemate.Lib.Checks
import Stablemate.Lib.Keyed
import Stablemate.Lib.Lists
import Stablemate.Model.Verify

/-!
# The spelling of a check

* `readString_quoted_iff`: which texts are read back from between the quotes that they are put in.
* `readCall_spelled`: the spelling of a check is read as a call.
* `spelling_reads_back`: a check whose texts survive is read back from its spelling.
-/

namespace Stablemate.Verify

open PyJson (Value PyFloat Key)
open Checks (bind_ok_iff mapM_ok_iff forM_ok_iff foldlM_map foldlM_inv error_ne_ok)

/-! ## Texts between quotes -/

/-- A text that its own spelling brings back: no line ends, and every backslash stands before a
character that it does not escape. -/
def survives : Text → Bool
  | [] => true
  | ['\\'] => false
  | '\\' :: c :: rest => escape c = some ['\\', c] && survives rest
  | c :: rest => !(c = '\n' || c = '\r' || c.toNat = 0) && survives rest

theorem readString_escape (c : Char) (rest : Text) : readString ('\\' :: c :: rest) =
    (escape c).bind fun chars => (readString rest).bind fun found => some (chars ++ found.1, found.2) := rfl

theorem readString_plain {c : Char} (hquote : c ≠ '"') (hslash : c ≠ '\\') (rest : Text) :
    readString (c :: rest) = if c = '\n' ∨ c = '\r' ∨ c.toNat = 0 then none
      else (readString rest).map fun found => (c :: found.1, found.2) := by
  rw [readString]
  · exact hquote
  · exact fun h _ => hslash h
  · exact fun _ _ h _ => hslash h

theorem escape_cases {c : Char} {chars : Text} (h : escape c = some chars) :
    (∃ d, chars = [d] ∧ (d = '\\' → c = '\\')) ∨ (chars = ['\\', c] ∧ c ≠ '"' ∧ c ≠ '\\') := by
  unfold escape at h
  have hquote : Char.ofNat 39 ≠ '\\' := by decide
  split at h
  · rename_i hsame
    obtain rfl := Option.some.inj h
    exact .inl ⟨c, rfl, id⟩
  rename_i hother
  repeat' split at h
  all_goals first
    | (cases h; done)
    | (obtain rfl := Option.some.inj h; exact .inl ⟨_, rfl, fun hno => absurd hno (by decide)⟩)
    | skip
  obtain rfl := Option.some.inj h
  exact .inr ⟨rfl, fun hno => hother (.inr (.inl hno)), fun hno => hother (.inl hno)⟩

theorem quoteChar_ne {c : Char} (h : c ≠ '"') : quoteChar c = [c] := if_neg h

/-- A character other than the backslash is read as it is. -/
theorem readString_quoteChar {c : Char} (hslash : c ≠ '\\') (text : Text) : readString (quoteChar c ++ text) =
    if c = '\n' ∨ c = '\r' ∨ c.toNat = 0 then none else (readString text).map fun found => (c :: found.1, found.2) := by
  by_cases hquote : c = '"'
  · subst hquote
    have hesc : escape '"' = some ['"'] := rfl
    have hend : ¬ ('"' = '\n' ∨ '"' = '\r' ∨ ('"' : Char).toNat = 0) := by decide
    rw [if_neg hend]
    show readString ('\\' :: '"' :: text) = _
    rw [readString_escape, hesc]
    cases readString text <;> rfl
  · rw [quoteChar_ne hquote]
    exact readString_plain hquote hslash text

/-- The last case of `survives` is about a character that is no backslash. -/
theorem ne_slash {c : Char} {s : Text} (hone : c = '\\' → s = [] → False)
    (hmore : ∀ (d : Char) (rest : List Char), c = '\\' → s = d :: rest → False) : c ≠ '\\' := by
  rintro rfl
  cases s with
  | nil => exact hone rfl rfl
  | cons d s => exact hmore d s rfl rfl

theorem survives_plain {c : Char} (hslash : c ≠ '\\') (s : Text) :
    survives (c :: s) = (!(c = '\n' || c = '\r' || c.toNat = 0) && survives s) := by
  rw [survives]
  · exact fun h _ => hslash h
  · exact fun _ _ h _ => hslash h

/-- **A text that survives is read back**, up to the quote that closes it. -/
theorem readString_quoted {s : Text} (h : survives s) (rest : Text) :
    readString (s.flatMap quoteChar ++ '"' :: rest) = some (s, rest) := by
  induction s using survives.induct with
  | case1 => rfl
  | case2 => cases h
  | case3 c s ih =>
    obtain ⟨hesc, hs⟩ : escape c = some ['\\', c] ∧ survives s = true := by simpa [survives] using h
    have hquote : c ≠ '"' := by
      rintro rfl
      cases hesc
    have hslash : quoteChar '\\' = ['\\'] := rfl
    rw [List.flatMap_cons, List.flatMap_cons, hslash, quoteChar_ne hquote]
    show readString ('\\' :: c :: (s.flatMap quoteChar ++ '"' :: rest)) = _
    rw [readString_escape, hesc, ih hs]
    rfl
  | case4 c s hone hmore ih =>
    have hslash := ne_slash hone hmore
    rw [survives_plain hslash] at h
    obtain ⟨hend, hs⟩ : ¬ (c = '\n' ∨ c = '\r' ∨ c.toNat = 0) ∧ survives s = true := by simpa [and_assoc] using h
    rw [List.flatMap_cons, List.append_assoc, readString_quoteChar hslash, if_neg hend, ih hs]
    rfl

theorem cons_replicate_append (k : ℕ) (s : Text) :
    List.replicate k '\\' ++ '\\' :: s = '\\' :: (List.replicate k '\\' ++ s) := by
  induction k with
  | zero => rfl
  | succ k ih => exact congrArg ('\\' :: ·) ih

/-- A text is not read with more backslashes before it than it has. -/
theorem readString_ne_lag {s rest rest' : Text} {k : ℕ} : readString (s.flatMap quoteChar ++ '"' :: rest) ≠
    some (List.replicate (k + 1) '\\' ++ s, rest') := by
  induction s using survives.induct generalizing k rest' with
  | case1 =>
    intro h
    cases (Prod.mk.inj (Option.some.inj h)).1
  | case2 =>
    intro h
    replace h : readString ('\\' :: '"' :: rest) = some ('\\' :: (List.replicate k '\\' ++ ['\\']), rest') := h
    rw [readString_escape] at h
    obtain ⟨chars, hesc, h⟩ := Option.bind_eq_some_iff.1 h
    obtain rfl : ['"'] = chars := Option.some.inj hesc
    obtain ⟨found, -, h⟩ := Option.bind_eq_some_iff.1 h
    have hhead := (List.cons.inj (Prod.mk.inj (Option.some.inj h)).1).1
    revert hhead
    decide
  | case3 c s ih =>
    intro h
    have hread : readString ('\\' :: ((c :: s).flatMap quoteChar ++ '"' :: rest)) =
        some ('\\' :: '\\' :: (List.replicate k '\\' ++ c :: s), rest') := by
      rw [← cons_replicate_append]
      exact h
    by_cases hquote : c = '"'
    · -- the text ends at the quote
      subst hquote
      cases (Prod.mk.inj (Option.some.inj (show some (['\\'], _) = some _ from hread))).1
    rw [List.flatMap_cons, quoteChar_ne hquote] at hread
    replace hread : readString ('\\' :: c :: (s.flatMap quoteChar ++ '"' :: rest)) = _ := hread
    rw [readString_escape] at hread
    obtain ⟨chars, hesc, hread⟩ := Option.bind_eq_some_iff.1 hread
    obtain ⟨⟨found, after⟩, hfound, hread⟩ := Option.bind_eq_some_iff.1 hread
    have hvalue := (Prod.mk.inj (Option.some.inj hread)).1
    rcases escape_cases hesc with ⟨d, rfl, hd⟩ | ⟨rfl, -, hslash⟩
    · obtain ⟨rfl, htail⟩ := List.cons.inj hvalue
      obtain rfl := hd rfl
      obtain rfl : found = List.replicate (k + 1 + 1) '\\' ++ s := by
        show found = '\\' :: '\\' :: (List.replicate k '\\' ++ s)
        rw [← cons_replicate_append]
        exact htail
      exact ih hfound
    · exact hslash (List.cons.inj (List.cons.inj hvalue).2).1
  | case4 c s hone hmore ih =>
    intro h
    have hslash := ne_slash hone hmore
    rw [List.flatMap_cons, List.append_assoc, readString_quoteChar hslash] at h
    split at h
    · cases h
    obtain ⟨found, -, h⟩ := Option.map_eq_some_iff.1 h
    exact hslash (List.cons.inj (Prod.mk.inj h).1).1

/-- **A text that is read back survives.** -/
theorem survives_of_readString {s rest rest' : Text}
    (h : readString (s.flatMap quoteChar ++ '"' :: rest) = some (s, rest')) : survives s := by
  induction s using survives.induct generalizing rest' with
  | case1 => rfl
  | case2 =>
    replace h : readString ('\\' :: '"' :: rest) = some (['\\'], rest') := h
    rw [readString_escape] at h
    obtain ⟨chars, hesc, h⟩ := Option.bind_eq_some_iff.1 h
    obtain rfl : ['"'] = chars := Option.some.inj hesc
    obtain ⟨found, -, h⟩ := Option.bind_eq_some_iff.1 h
    have hhead := (List.cons.inj (Prod.mk.inj (Option.some.inj h)).1).1
    revert hhead
    decide
  | case3 c s ih =>
    by_cases hquote : c = '"'
    · subst hquote
      cases (Prod.mk.inj (Option.some.inj (show some (['\\'], _) = some _ from h))).1
    rw [List.flatMap_cons, List.flatMap_cons, quoteChar_ne hquote] at h
    replace h : readString ('\\' :: c :: (s.flatMap quoteChar ++ '"' :: rest)) = _ := h
    rw [readString_escape] at h
    obtain ⟨chars, hesc, h⟩ := Option.bind_eq_some_iff.1 h
    obtain ⟨⟨found, after⟩, hfound, h⟩ := Option.bind_eq_some_iff.1 h
    have hvalue := (Prod.mk.inj (Option.some.inj h)).1
    rcases escape_cases hesc with ⟨d, rfl, hd⟩ | ⟨rfl, -, -⟩
    · -- an escape that is one character leaves the reading behind by one
      obtain ⟨rfl, htail⟩ := List.cons.inj hvalue
      obtain rfl := hd rfl
      obtain rfl : found = List.replicate 1 '\\' ++ s := htail
      exact (readString_ne_lag hfound).elim
    · obtain rfl : found = s := (List.cons.inj (List.cons.inj hvalue).2).2
      have hs := ih hfound
      simpa [survives, hs] using hesc
  | case4 c s hone hmore ih =>
    have hslash := ne_slash hone hmore
    rw [List.flatMap_cons, List.append_assoc, readString_quoteChar hslash] at h
    split at h
    · cases h
    rename_i hend
    obtain ⟨⟨found, after⟩, hfound, h⟩ := Option.map_eq_some_iff.1 h
    obtain rfl : found = s := (List.cons.inj (Prod.mk.inj h).1).2
    have hs := ih hfound
    rw [survives_plain hslash, hs, Bool.and_true]
    simpa [and_assoc] using hend

/-- **Which texts are read back** from between the quotes that they are put in. -/
theorem readString_quoted_iff {s rest : Text} :
    (∃ rest', readString (s.flatMap quoteChar ++ '"' :: rest) = some (s, rest')) ↔ survives s :=
  ⟨fun ⟨_, h⟩ => survives_of_readString h, fun h => ⟨rest, readString_quoted h rest⟩⟩

/-! ## Literals -/

section Literals

variable {floatOf : Text → PyFloat}

theorem takeWhile_stop {p : Char → Bool} {t : Text} {c : Char} {rest : Text} (ht : ∀ a ∈ t, p a = true) (hc : p c = false) :
    (t ++ c :: rest).takeWhile p = t := by
  rw [List.takeWhile_append_of_pos ht, List.takeWhile_cons_of_neg (by rw [hc]; exact Bool.false_ne_true), List.append_nil]

/-- A numeral is taken whole, and then its digits decide. -/
theorem readWord_numeral {t rest : Text} (hne : t ≠ []) (hnum : ∀ c ∈ t, isNumeral c = true) (hrest : Stops ')' rest) :
    readWord floatOf (t ++ rest) =
      if isNatural (unsigned t) ∧ (unsigned t).length ≤ 4300 then
        some (.int (if t.head? = some '-' then -(Nat.ofDigitChars 10 t.tail 0 : ℤ) else Nat.ofDigitChars 10 t 0), rest)
      else if isFloatText (unsigned t) then some (.float (floatOf t), rest) else none := by
  obtain ⟨c, tail, rfl, hc⟩ := hrest.exists_cons
  have hstop : isNumeral c = false := by rcases hc with rfl | rfl <;> rfl
  have htake : (t ++ c :: tail).takeWhile isNumeral = t := takeWhile_stop hnum hstop
  have hdrop : (t ++ c :: tail).drop t.length = c :: tail := List.drop_left
  have hword : ∀ w : Text, w.head?.any (fun d => !isNumeral d) = true → (t ++ c :: tail).takeWhile isIdent ≠ w := by
    intro w hw hno
    cases t with
    | nil => exact hne rfl
    | cons d t =>
      rw [List.cons_append, List.takeWhile_cons] at hno
      split at hno
      · rw [← hno] at hw
        have hd := hnum d List.mem_cons_self
        rw [List.head?_cons, Option.any_some, hd] at hw
        cases hw
      · rw [← hno] at hw
        cases hw
  rw [readWord, if_neg (hword _ rfl), if_neg (hword _ rfl)]
  show (if isNatural (unsigned ((t ++ c :: tail).takeWhile isNumeral)) = true ∧ _ then _ else _) = _
  rw [htake, hdrop]

theorem head_toDigits : ∀ {n : ℕ}, 0 < n → (Nat.toDigits 10 n).head? ≠ some '0' := by
  intro n
  induction n using Nat.strong_induction_on with
  | _ n ih =>
    intro hn
    by_cases hlt : n < 10
    · rw [Nat.toDigits_of_lt_base hlt]
      have hall : ∀ m < 10, 0 < m → [Nat.digitChar m].head? ≠ some '0' := by decide
      exact hall n hlt hn
    · rw [Nat.toDigits_of_base_le (by omega) (by omega), List.head?_append]
      have hten := ih (n / 10) (by omega) (by omega)
      cases hdigits : Nat.toDigits 10 (n / 10) with
      | nil => exact absurd hdigits Nat.toDigits_ne_nil
      | cons d ds =>
        rw [hdigits] at hten
        exact hten

theorem isNatural_toDigits (n : ℕ) : isNatural (Nat.toDigits 10 n) = true := by
  have hdigits : (Nat.toDigits 10 n).all Char.isDigit = true :=
    List.all_eq_true.2 fun c hc => Nat.isDigit_of_mem_toDigits (by decide) (by decide) hc
  rcases Nat.eq_zero_or_pos n with rfl | hn
  · rw [Nat.toDigits_zero]
    rfl
  · have hhead := head_toDigits hn
    have hne : Nat.toDigits 10 n ≠ [] := Nat.toDigits_ne_nil
    simp [isNatural, hdigits, hhead, hne]

theorem readWord_int {i : ℤ} {rest : Text} (hlen : (Nat.toDigits 10 i.natAbs).length ≤ 4300) (hrest : Stops ')' rest) :
    readWord floatOf (PyJson.decimal i ++ rest) = some (.int i, rest) := by
  have hdigits : ∀ c ∈ Nat.toDigits 10 i.natAbs, Char.isDigit c = true :=
    fun c hc => Nat.isDigit_of_mem_toDigits (by decide) (by decide) hc
  have hnum : ∀ c ∈ Nat.toDigits 10 i.natAbs, isNumeral c = true := by
    intro c hc
    simp [isNumeral, hdigits c hc]
  by_cases hneg : i < 0
  · have htext : PyJson.decimal i = '-' :: Nat.toDigits 10 i.natAbs := if_pos hneg
    have hunsigned : unsigned ('-' :: Nat.toDigits 10 i.natAbs) = Nat.toDigits 10 i.natAbs := rfl
    rw [htext, readWord_numeral (List.cons_ne_nil _ _) (List.forall_mem_cons.2 ⟨rfl, hnum⟩) hrest, hunsigned,
      if_pos ⟨isNatural_toDigits _, hlen⟩, List.head?_cons, if_pos rfl, List.tail_cons, Nat.ofDigitChars_ten_toDigits]
    have habs : -(i.natAbs : ℤ) = i := by omega
    rw [habs]
  · have htext : PyJson.decimal i = Nat.toDigits 10 i.natAbs := if_neg hneg
    have hhead : (Nat.toDigits 10 i.natAbs).head? ≠ some '-' := by
      intro hno
      have hdash := hdigits '-' (List.mem_of_head? hno)
      revert hdash
      decide
    have hunsigned : unsigned (Nat.toDigits 10 i.natAbs) = Nat.toDigits 10 i.natAbs := if_neg hhead
    rw [htext, readWord_numeral Nat.toDigits_ne_nil hnum hrest, hunsigned,
      if_pos ⟨isNatural_toDigits _, hlen⟩, if_neg hhead, Nat.ofDigitChars_ten_toDigits]
    have habs : (i.natAbs : ℤ) = i := by omega
    rw [habs]

/-- A numeral with a point or an exponent is no integer. -/
theorem isNatural_of_isFloatText {t : Text} (h : isFloatText t = true) : ¬ isNatural t = true := by
  intro hnat
  have hall : ∀ c ∈ t, Char.isDigit c = true := by
    have hdigits : t.all Char.isDigit = true := by
      unfold isNatural at hnat
      rw [Bool.and_eq_true, Bool.and_eq_true] at hnat
      exact hnat.1.2
    exact List.all_eq_true.1 hdigits
  have htake : t.takeWhile Char.isDigit = t := List.takeWhile_eq_self_iff.2 hall
  simp [isFloatText, htake] at h

theorem readWord_float {t rest : Text} (hnum : ∀ c ∈ t, isNumeral c = true) (hfloat : isFloatText (unsigned t) = true)
    (hrest : Stops ')' rest) : readWord floatOf (t ++ rest) = some (.float (floatOf t), rest) := by
  have hne : t ≠ [] := by
    rintro rfl
    cases hfloat
  rw [readWord_numeral hne hnum hrest, if_neg fun hno => isNatural_of_isFloatText hfloat hno.1, if_pos hfloat]

theorem readWord_bool {b : Bool} {rest : Text} (hrest : Stops ')' rest) :
    readWord floatOf ((if b then "true".toList else "false".toList) ++ rest) = some (.bool b, rest) := by
  obtain ⟨c, tail, rfl, hc⟩ := hrest.exists_cons
  have hstop : isIdent c = false := by rcases hc with rfl | rfl <;> rfl
  cases b with
  | true =>
    have htake : ("true".toList ++ c :: tail).takeWhile isIdent = "true".toList := takeWhile_stop (by decide) hstop
    exact (if_pos htake).trans rfl
  | false =>
    have htake : ("false".toList ++ c :: tail).takeWhile isIdent = "false".toList := takeWhile_stop (by decide) hstop
    have hno : ("false".toList ++ c :: tail).takeWhile isIdent ≠ "true".toList := by
      rw [htake]
      decide
    show readWord floatOf ("false".toList ++ c :: tail) = _
    unfold readWord
    simp only [if_neg hno, if_pos htake]
    rfl

/-- A text that starts like a numeral or a word is read as one. -/
theorem readValue_word {c : Char} (hquote : c ≠ '"') (hopen : c ≠ '[') (rest : Text) :
    readValue floatOf (c :: rest) = readWord floatOf (c :: rest) := by
  rw [readValue]
  · exact fun _ h => hquote (List.cons.inj h).1
  · exact fun _ h => hopen (List.cons.inj h).1
  · exact fun _ h => hopen (List.cons.inj h).1

/-- The quoted text of a text that survives. -/
theorem readText_quoted {s : Text} (h : survives s) (rest : Text) : readText (quoted s ++ rest) = some (s, rest) := by
  have hshape : quoted s ++ rest = '"' :: (s.flatMap quoteChar ++ '"' :: rest) := by simp [quoted]
  rw [hshape]
  exact readString_quoted h rest

theorem readValue_quoted {s : Text} (h : survives s) (rest : Text) :
    readValue floatOf (quoted s ++ rest) = some (.str s, rest) := by
  have hshape : quoted s ++ rest = '"' :: (s.flatMap quoteChar ++ '"' :: rest) := by simp [quoted]
  rw [hshape]
  show (readString _).map _ = _
  rw [readString_quoted h rest]
  rfl

theorem readValue_list {items : List Text} (h : ∀ s ∈ items, survives s) (rest : Text) :
    readValue floatOf (['['] ++ commaList (items.map quoted) ++ [']'] ++ rest) = some (.list (items.map .str), rest) := by
  cases items with
  | nil => rfl
  | cons s items =>
    have hshape : ['['] ++ commaList ((s :: items).map quoted) ++ [']'] ++ rest =
        '[' :: (commaList ((s :: items).map quoted) ++ ']' :: rest) := by simp
    obtain ⟨tail, hhead⟩ : ∃ tail, commaList ((s :: items).map quoted) ++ ']' :: rest = '"' :: tail := by
      cases items with
      | nil => exact ⟨_, by simp [commaList, quoted]; rfl⟩
      | cons u items => exact ⟨_, by rw [List.map_cons, List.map_cons, commaList_cons]; rfl⟩
    have hlen : (s :: items).length ≤ (commaList ((s :: items).map quoted) ++ ']' :: rest).length := by
      have hitems : ∀ t ∈ (s :: items).map quoted, t ≠ [] := by
        rintro t ht rfl
        obtain ⟨x, -, hx⟩ := List.mem_map.1 ht
        cases hx
      have hle := length_le_commaList hitems
      rw [List.length_map] at hle
      rw [List.length_append]
      omega
    have hread : readItems readText ']' (commaList ((s :: items).map quoted) ++ ']' :: rest).length
        (commaList ((s :: items).map quoted) ++ ']' :: rest) = some ((s :: items).map id, rest) :=
      readItems_commaList (by decide) (List.cons_ne_nil s items) hlen (fun x hx rest _ => readText_quoted (h x hx) rest) rest
    rw [hshape]
    rw [hhead] at hread ⊢
    show (readItems readText ']' ('"' :: tail).length ('"' :: tail)).map _ = _
    rw [hread, List.map_id]
    rfl

/-- A value whose spelling is read back: its texts survive, and its number has a numeral. No
parameter of a check takes a map. -/
def Keeps (floatOf : Text → PyFloat) : CheckValue → Prop
  | .str s => survives s
  | .int i => (Nat.toDigits 10 i.natAbs).length ≤ 4300
  | .float x => ∃ q t, x = .fin q t ∧ (∀ c ∈ t, isNumeral c = true) ∧ isFloatText (unsigned t) = true ∧ floatOf t = x
  | .bool _ => True
  | .list items => ∀ s ∈ items, survives s
  | .dict _ => False

theorem newline_of_survives {s : Text} (h : survives s) : '\n' ∉ s := by
  induction s using survives.induct with
  | case1 => exact List.not_mem_nil
  | case2 => cases h
  | case3 c s ih =>
    obtain ⟨hesc, hs⟩ : escape c = some ['\\', c] ∧ survives s = true := by simpa [survives] using h
    rw [List.mem_cons, List.mem_cons]
    rintro (hno | rfl | hmem)
    · exact absurd hno (by decide)
    · cases hesc
    · exact ih hs hmem
  | case4 c s hone hmore ih =>
    rw [survives_plain (ne_slash hone hmore), Bool.and_eq_true] at h
    rw [List.mem_cons]
    rintro (rfl | hmem)
    · cases h.1
    · exact ih h.2 hmem

theorem newline_quoted {s : Text} (h : survives s) : '\n' ∉ quoted s := by
  have hbody : '\n' ∉ s.flatMap quoteChar := by
    intro hmem
    obtain ⟨c, hc, hquote⟩ := List.mem_flatMap.1 hmem
    unfold quoteChar at hquote
    split at hquote
    · revert hquote
      decide
    · obtain rfl := List.mem_singleton.1 hquote
      exact newline_of_survives h hc
  simp [quoted, hbody]

theorem newline_numeral {t : Text} (h : ∀ c ∈ t, isNumeral c = true) : '\n' ∉ t := by
  intro hmem
  cases h '\n' hmem

theorem isNumeral_decimal (i : ℤ) : ∀ c ∈ PyJson.decimal i, isNumeral c = true := by
  have hdigits : ∀ c ∈ Nat.toDigits 10 i.natAbs, isNumeral c = true := by
    intro c hc
    have hdigit : Char.isDigit c = true := Nat.isDigit_of_mem_toDigits (by decide) (by decide) hc
    simp [isNumeral, hdigit]
  unfold PyJson.decimal
  split
  · exact List.forall_mem_cons.2 ⟨rfl, hdigits⟩
  · exact hdigits

theorem decimal_ne_nil (i : ℤ) : PyJson.decimal i ≠ [] := by
  unfold PyJson.decimal
  split
  · exact List.cons_ne_nil _ _
  · exact Nat.toDigits_ne_nil

theorem readValue_numeral {t : Text} (hne : t ≠ []) (hnum : ∀ c ∈ t, isNumeral c = true) (rest : Text) :
    readValue floatOf (t ++ rest) = readWord floatOf (t ++ rest) := by
  cases t with
  | nil => exact (hne rfl).elim
  | cons c t =>
    have hc := hnum c List.mem_cons_self
    refine readValue_word ?_ ?_ (t ++ rest)
    · rintro rfl
      cases hc
    · rintro rfl
      cases hc

/-- **A literal is read back.** -/
theorem readValue_literal {v : CheckValue} (h : Keeps floatOf v) :
    ∃ t, literal v = .ok t ∧ '\n' ∉ t ∧ ∀ rest, Stops ')' rest → readValue floatOf (t ++ rest) = some (v.value, rest) := by
  cases v with
  | str s => exact ⟨quoted s, rfl, newline_quoted h, fun rest _ => readValue_quoted h rest⟩
  | int i =>
    refine ⟨PyJson.decimal i, if_pos h, newline_numeral (isNumeral_decimal i), fun rest hrest => ?_⟩
    rw [readValue_numeral (decimal_ne_nil i) (isNumeral_decimal i)]
    exact readWord_int h hrest
  | float x =>
    obtain ⟨q, t, rfl, hnum, hfloat, hof⟩ := h
    have hne : t ≠ [] := by
      rintro rfl
      cases hfloat
    refine ⟨t, rfl, newline_numeral hnum, fun rest hrest => ?_⟩
    rw [readValue_numeral hne hnum, readWord_float hnum hfloat hrest, hof]
    rfl
  | bool b =>
    refine ⟨if b then "true".toList else "false".toList, rfl, ?_, fun rest hrest => ?_⟩
    · cases b <;> decide
    · have hword : readWord floatOf ((if b then "true".toList else "false".toList) ++ rest) = some (.bool b, rest) :=
        readWord_bool hrest
      show _ = some (Value.bool b, rest)
      rw [← hword]
      cases b with
      | true => exact readValue_word (by decide) (by decide) _
      | false => exact readValue_word (by decide) (by decide) _
  | list items =>
    refine ⟨['['] ++ commaList (items.map quoted) ++ [']'], rfl, ?_, fun rest _ => readValue_list h rest⟩
    have hitems : '\n' ∉ commaList (items.map quoted) := by
      refine not_mem_commaList (by decide) (by decide) fun t ht => ?_
      obtain ⟨s, hs, rfl⟩ := List.mem_map.1 ht
      exact newline_quoted (h s hs)
    simp [hitems]
  | dict items => exact h.elim

/-! ## Arguments -/

/-- A name that Python reads as one. -/
def Named (name : Text) : Prop := name ≠ [] ∧ name ∉ PYTHON_KEYWORDS ∧ ∀ c ∈ name, isIdent c = true

instance (name : Text) : Decidable (Named name) := inferInstanceAs (Decidable (_ ∧ _ ∧ _))

/-- What the table of the checks keeps to, so that its calls can be spelled and bound again. -/
structure WellSpelled (spec : CheckSpec) : Prop where
  named : Named spec.name
  names : ∀ p ∈ spec.params, Named p.name
  distinct : (spec.params.map (·.name)).Nodup
  paths : ∀ p ∈ spec.params, p.path = true → p.type = .str ∧
    (p.pattern || p.nonempty || p.event || p.key) = false

theorem checks_wellSpelled : ∀ spec ∈ CHECKS, WellSpelled spec := by
  have hnamed : ∀ spec ∈ CHECKS, Named spec.name := by decide
  have hnames : ∀ spec ∈ CHECKS, ∀ p ∈ spec.params, Named p.name := by decide
  have hdistinct : ∀ spec ∈ CHECKS, (spec.params.map (·.name)).Nodup := by decide
  have hpaths : ∀ spec ∈ CHECKS, ∀ p ∈ spec.params, p.path = true → p.type = .str ∧
      (p.pattern || p.nonempty || p.event || p.key) = false := by decide
  exact fun spec hspec => ⟨hnamed spec hspec, hnames spec hspec, hdistinct spec hspec, hpaths spec hspec⟩

/-- What an argument is read back as, before it is bound. -/
def spelledValue (pv : CheckParam × CheckValue) : Value :=
  if pv.1.path ∧ pv.2 = .str [] then .str ['$'] else pv.2.value

/-- An argument as `text` spells it. -/
def spelling (pv : CheckParam × CheckValue) : Text := pv.1.name ++ '=' :: ((_spelled pv.2 pv.1).toOption.getD [])

theorem readValue_spelled {p : CheckParam} {v : CheckValue} (h : Keeps floatOf v) :
    ∃ t, _spelled v p = .ok t ∧ '\n' ∉ t ∧
      ∀ rest, Stops ')' rest → readValue floatOf (t ++ rest) = some (spelledValue (p, v), rest) := by
  by_cases hroot : p.path ∧ v = .str []
  · refine ⟨"\"$\"".toList, if_pos hroot, by decide, fun rest _ => ?_⟩
    have hvalue : spelledValue (p, v) = .str ['$'] := if_pos hroot
    rw [hvalue]
    rfl
  · obtain ⟨t, ht, hline, hread⟩ := readValue_literal h
    have hvalue : spelledValue (p, v) = v.value := if_neg hroot
    refine ⟨t, ?_, hline, fun rest hrest => ?_⟩
    · rw [← ht]
      exact if_neg hroot
    · rw [hvalue]
      exact hread rest hrest

theorem takeWhile_name {name : Text} (h : Named name) {c : Char} (hc : isIdent c = false) (rest : Text) :
    (name ++ c :: rest).takeWhile isIdent = name := takeWhile_stop h.2.2 hc

/-- **An argument is read back** under its name. -/
theorem readKeyword_spelling {pv : CheckParam × CheckValue} (hname : Named pv.1.name) (h : Keeps floatOf pv.2) {rest : Text}
    (hrest : Stops ')' rest) : readKeyword floatOf (spelling pv ++ rest) = some ((pv.1.name, spelledValue pv), rest) := by
  obtain ⟨t, ht, -, hread⟩ := readValue_spelled (p := pv.1) h
  have hshape : spelling pv ++ rest = pv.1.name ++ '=' :: (t ++ rest) := by
    unfold spelling
    rw [ht, List.append_assoc]
    rfl
  have htake := takeWhile_name hname (c := '=') rfl (t ++ rest)
  have hdrop : (pv.1.name ++ '=' :: (t ++ rest)).drop pv.1.name.length = '=' :: (t ++ rest) := List.drop_left
  rw [hshape]
  unfold readKeyword
  simp only [htake]
  rw [if_pos ⟨hname.1, hname.2.1⟩, hdrop]
  show (readValue floatOf (t ++ rest)).map _ = _
  rw [hread rest hrest]
  rfl

theorem newline_spelling {pv : CheckParam × CheckValue} (hname : Named pv.1.name) (h : Keeps floatOf pv.2) :
    '\n' ∉ spelling pv := by
  obtain ⟨t, ht, hline, -⟩ := readValue_spelled (p := pv.1) h
  have hno : '\n' ∉ pv.1.name := fun hmem => absurd (hname.2.2 _ hmem) (by decide)
  unfold spelling
  rw [ht]
  simp [hno, Except.toOption, hline]

/-! ## Calls -/

/-- The bound arguments, in the order of the declaration. -/
def CheckCall.bound (call : CheckCall) (spec : CheckSpec) : List (CheckParam × CheckValue) :=
  spec.params.filterMap fun p => (call.arg p.name).map fun v => (p, v)

/-- The spelling of a call. -/
def spelled (name : Text) (bound : List (CheckParam × CheckValue)) : Text :=
  name ++ '(' :: (commaList (bound.map spelling) ++ [')'])

/-- One argument, spelled or refused. -/
def spellOne (pv : CheckParam × CheckValue) : Except Text Text := do
  let text ← _spelled pv.2 pv.1
  pure (pv.1.name ++ ['='] ++ text)

theorem spellOne_eq {pv : CheckParam × CheckValue} (h : Keeps floatOf pv.2) : spellOne pv = .ok (spelling pv) := by
  obtain ⟨t, ht, -, -⟩ := readValue_spelled (p := pv.1) h
  unfold spellOne spelling
  rw [ht]
  show Except.ok (pv.1.name ++ ['='] ++ t) = .ok (pv.1.name ++ '=' :: t)
  rw [List.append_assoc]
  rfl

theorem text_eq {call : CheckCall} {spec : CheckSpec} (hspec : Table.checks.spec call.name = some spec)
    (hkeeps : ∀ pv ∈ call.bound spec, Keeps floatOf pv.2) : call.text = .ok (spelled call.name (call.bound spec)) := by
  have hparts : spec.params.filterMap call.part = (call.bound spec).map spellOne := by
    unfold CheckCall.bound
    rw [List.map_filterMap]
    refine List.filterMap_congr fun p _ => ?_
    unfold CheckCall.part
    rw [Option.map_map]
    rfl
  have hall : ((call.bound spec).map spellOne).mapM id = .ok ((call.bound spec).map spelling) := by
    rw [mapM_ok_iff, List.forall₂_map_left_iff, List.forall₂_map_right_iff, List.forall₂_same]
    exact fun pv hpv => spellOne_eq (hkeeps pv hpv)
  unfold CheckCall.text
  rw [hspec]
  show (spec.params.filterMap call.part).mapM id >>= _ = _
  rw [hparts, hall]
  show Except.ok (call.name ++ ['('] ++ commaList ((call.bound spec).map spelling) ++ [')']) = _
  unfold spelled
  simp

/-- **A call is spelled** unless one of its integers has too many digits. -/
theorem exists_text {call : CheckCall} {spec : CheckSpec} (hspec : Table.checks.spec call.name = some spec)
    (hints : ∀ kv ∈ call.args, ∀ i, kv.2 = .int i → (Nat.toDigits 10 i.natAbs).length ≤ 4300) :
    ∃ t, call.text = .ok t := by
  have hpart : ∀ p v, call.arg p = some v → ∀ param, ∃ t, _spelled v param = .ok t := by
    intro p v hv param
    obtain ⟨pre, post, hsplit, -⟩ := List.lookup_eq_some_iff.1 hv
    have hmem : (p, v) ∈ call.args := by
      rw [hsplit]
      exact List.mem_append_right pre List.mem_cons_self
    unfold _spelled
    split
    · exact ⟨_, rfl⟩
    · cases v with
      | int i => exact ⟨PyJson.decimal i, if_pos (hints _ hmem i rfl)⟩
      | _ => exact ⟨_, rfl⟩
  have hparts : ∃ parts, (spec.params.filterMap call.part).mapM id = .ok parts := by
    refine Checks.mapM_ok fun part hmem => ?_
    obtain ⟨p, -, hp⟩ := List.mem_filterMap.1 hmem
    obtain ⟨v, hv, rfl⟩ := Option.map_eq_some_iff.1 hp
    obtain ⟨t, ht⟩ := hpart p.name v hv p
    exact ⟨p.name ++ ['='] ++ t, bind_ok_iff.2 ⟨t, ht, rfl⟩⟩
  obtain ⟨parts, hparts⟩ := hparts
  unfold CheckCall.text
  rw [hspec]
  exact ⟨_, bind_ok_iff.2 ⟨spec, rfl, bind_ok_iff.2 ⟨parts, hparts, rfl⟩⟩⟩

theorem readKeywords_spelled {bound : List (CheckParam × CheckValue)} (hnames : ∀ pv ∈ bound, Named pv.1.name)
    (hkeeps : ∀ pv ∈ bound, Keeps floatOf pv.2) : readKeywords floatOf (commaList (bound.map spelling) ++ [')']) =
      some (bound.map fun pv => (pv.1.name, spelledValue pv)) := by
  cases bound with
  | nil => rfl
  | cons pv bound =>
    have hitems : ∀ t ∈ (pv :: bound).map spelling, t ≠ [] := by
      rintro t ht rfl
      obtain ⟨x, -, hx⟩ := List.mem_map.1 ht
      exact List.append_ne_nil_of_right_ne_nil _ (List.cons_ne_nil _ _) hx
    have hle := length_le_commaList hitems
    have hpos : 0 < (commaList ((pv :: bound).map spelling)).length := by
      rw [List.length_map, List.length_cons] at hle
      omega
    have hlen : (pv :: bound).length ≤ (commaList ((pv :: bound).map spelling) ++ [')']).length := by
      rw [List.length_map] at hle
      rw [List.length_append]
      omega
    have hmore : commaList ((pv :: bound).map spelling) ++ [')'] ≠ [')'] := by
      intro hno
      have hsize := congrArg List.length hno
      rw [List.length_append, List.length_singleton] at hsize
      omega
    have hitem : ∀ x ∈ pv :: bound, ∀ rest, Stops ')' rest →
        readKeyword floatOf (spelling x ++ rest) = some ((x.1.name, spelledValue x), rest) :=
      fun x hx rest hrest => readKeyword_spelling (hnames x hx) (hkeeps x hx) hrest
    have hread := readItems_commaList (by decide) (List.cons_ne_nil pv bound) hlen hitem []
    unfold readKeywords
    rw [if_neg hmore, hread]

/-- **A spelling is read as a call** of the arguments that it spells. -/
theorem readCall_spelled {name : Text} (hname : Named name) {bound : List (CheckParam × CheckValue)}
    (hnames : ∀ pv ∈ bound, Named pv.1.name) (hkeeps : ∀ pv ∈ bound, Keeps floatOf pv.2) :
    readCall floatOf (spelled name bound) =
      some ⟨name, [], bound.map fun pv => (some pv.1.name, some (spelledValue pv))⟩ := by
  have htake : (spelled name bound).takeWhile isIdent = name := takeWhile_name hname rfl _
  have hdrop : (spelled name bound).drop name.length = '(' :: (commaList (bound.map spelling) ++ [')']) := List.drop_left
  unfold readCall
  simp only [htake]
  rw [if_pos ⟨hname.1, hname.2.1⟩, hdrop]
  show (readKeywords floatOf _).map _ = _
  rw [readKeywords_spelled hnames hkeeps]
  exact congrArg (fun keywords => some (⟨name, [], keywords⟩ : Expr)) List.map_map

end Literals

/-! ## Folding and opening -/

theorem softBreaks_same (fold : Text) : ∀ {text : Text}, '\n' ∉ text → ∀ blank,
    softBreaks fold false blank text = blank.reverse ++ text := by
  intro text
  induction text with
  | nil => exact fun _ blank => (List.append_nil _).symm
  | cons c text ih =>
    intro h blank
    have hc : c ≠ '\n' := fun hno => h (hno ▸ List.mem_cons_self)
    have hrest : '\n' ∉ text := fun hmem => h (List.mem_cons_of_mem c hmem)
    rw [softBreaks, if_neg hc]
    by_cases hblank : isBlank c = true
    · rw [if_pos hblank, if_neg Bool.false_ne_true, ih hrest, List.reverse_cons, List.append_assoc]
      rfl
    · rw [if_neg hblank, ih hrest]
      rfl

theorem strip_same {c d : Char} {t : Text} (hc : Text.isSpace c = false) (hd : Text.isSpace d = false) :
    Text.strip (c :: (t ++ [d])) = c :: (t ++ [d]) := by
  have hfront : (c :: (t ++ [d])).dropWhile Text.isSpace = c :: (t ++ [d]) :=
    List.dropWhile_cons_of_neg (by rw [hc]; exact Bool.false_ne_true)
  have hback : (c :: (t ++ [d])).reverse = d :: (c :: t).reverse := by simp
  unfold Text.strip Text.rstrip
  rw [hfront, hback, List.dropWhile_cons_of_neg (by rw [hd]; exact Bool.false_ne_true), ← hback, List.reverse_reverse]

theorem isSpace_ident {c : Char} (h : isIdent c = true) : Text.isSpace c = false := by
  have hrange : (97 ≤ c.toNat ∧ c.toNat ≤ 122) ∨ c = '_' := by
    simpa [isIdent, Char.le_def, UInt32.le_iff_toNat_le] using h
  rcases hrange with hrange | rfl
  · simp only [Text.isSpace, Bool.or_eq_false_iff, Bool.and_eq_false_iff, decide_eq_false_iff_not, beq_eq_false_iff_ne]
    omega
  · rfl

/-- **Nothing is folded or opened** in a call on one line. -/
theorem unwrap_same {c : Char} {t : Text} (hc : isIdent c = true) (hline : '\n' ∉ c :: (t ++ [')'])) (fold : Text) :
    _unwrap (c :: (t ++ [')'])) fold = c :: (t ++ [')']) := by
  have hstrip : Text.strip (c :: (t ++ [')'])) = c :: (t ++ [')']) := strip_same (isSpace_ident hc) (by decide)
  have htick : c ≠ '`' := by
    rintro rfl
    cases hc
  have hopen : openSpan (c :: (t ++ [')'])) = c :: (t ++ [')']) := by
    have htake : (c :: (t ++ [')'])).takeWhile (fun c => c = '`') = [] :=
      List.takeWhile_cons_of_neg (by simpa using htick)
    unfold openSpan
    rw [htake]
    rfl
  unfold _unwrap
  rw [softBreaks_same fold hline]
  show Text.strip (openSpan (Text.strip (c :: (t ++ [')'])))) = _
  rw [hstrip, hopen, hstrip]

theorem spelled_shape {name : Text} (hname : Named name) (bound : List (CheckParam × CheckValue)) :
    ∃ c t, isIdent c = true ∧ spelled name bound = c :: (t ++ [')']) := by
  cases name with
  | nil => exact (hname.1 rfl).elim
  | cons c name => exact ⟨c, name ++ '(' :: commaList (bound.map spelling), hname.2.2 c List.mem_cons_self, by simp [spelled]⟩

theorem newline_spelled {floatOf : Text → PyFloat} {name : Text} (hname : Named name)
    {bound : List (CheckParam × CheckValue)} (hnames : ∀ pv ∈ bound, Named pv.1.name)
    (hkeeps : ∀ pv ∈ bound, Keeps floatOf pv.2) : '\n' ∉ spelled name bound := by
  have hhead : '\n' ∉ name := fun hmem => absurd (hname.2.2 _ hmem) (by decide)
  have hitems : '\n' ∉ commaList (bound.map spelling) := by
    refine not_mem_commaList (by decide) (by decide) fun t ht => ?_
    obtain ⟨pv, hpv, rfl⟩ := List.mem_map.1 ht
    exact newline_spelling (hnames pv hpv) (hkeeps pv hpv)
  simp [spelled, hhead, hitems]

/-! ## Taking the arguments -/

section Arguments

variable {floatOf : Text → PyFloat}

/-- The arguments, by name, as they are read back. -/
def spelledArgs (bound : List (CheckParam × CheckValue)) : List (Text × Value) :=
  bound.map fun pv => (pv.1.name, spelledValue pv)

theorem boundValue_spelled {pv : CheckParam × CheckValue} (h : Keeps floatOf pv.2) :
    boundValue (some (spelledValue pv)) = .ok (spelledValue pv) := by
  unfold spelledValue
  split
  · rfl
  · obtain ⟨p, v⟩ := pv
    cases v with
    | str s =>
      cases s with
      | nil => rfl
      | cons c s =>
        have hc : c.toNat ≠ 0 := by
          intro hzero
          have hslash : c ≠ '\\' := by
            rintro rfl
            revert hzero
            decide
          replace h : survives (c :: s) = true := h
          rw [survives_plain hslash, Bool.and_eq_true] at h
          simp [hzero] at h
        exact if_neg hc
    | _ => rfl

/-- A name that comes later is not among the earlier ones. -/
theorem not_mem_of_split {bound pre post : List (CheckParam × CheckValue)} {pv : CheckParam × CheckValue}
    (hdistinct : (bound.map fun pv => pv.1.name).Nodup) (hsplit : bound = pre ++ pv :: post) :
    pv.1.name ∉ (spelledArgs pre).map (·.1) := by
  have hnames : (spelledArgs pre).map (·.1) = pre.map fun pv => pv.1.name := List.map_map
  rw [hsplit, List.map_append, List.nodup_append] at hdistinct
  rw [hnames]
  intro hmem
  exact hdistinct.2.2 _ hmem _ List.mem_cons_self rfl

theorem takeArguments_spelled {name : Text} {bound : List (CheckParam × CheckValue)}
    (hdistinct : (bound.map fun pv => pv.1.name).Nodup) (hkeeps : ∀ pv ∈ bound, Keeps floatOf pv.2) :
    takeArguments ⟨name, [], bound.map fun pv => (some pv.1.name, some (spelledValue pv))⟩ = .ok ([], spelledArgs bound) := by
  have hloop : bound.foldlM (fun acc pv => takeKeyword acc (some pv.1.name, some (spelledValue pv))) [] =
      .ok ([] ++ spelledArgs bound) := by
    refine foldlM_map fun pre pv post hsplit => ?_
    have hnew := not_mem_of_split hdistinct hsplit
    have hvalue := boundValue_spelled (hkeeps pv (hsplit ▸ List.mem_append_right pre List.mem_cons_self))
    show (if pv.1.name ∈ (spelledArgs pre).map (·.1) then _ else _) = _
    rw [if_neg hnew, hvalue]
    rfl
  unfold takeArguments
  show (bound.map fun pv => (some pv.1.name, some (spelledValue pv))).foldlM takeKeyword [] >>= _ = _
  rw [List.foldlM_map, hloop]
  rfl

theorem spread_call_spelled {spec : CheckSpec} {name : Text} {bound : List (CheckParam × CheckValue)}
    (hdistinct : (bound.map fun pv => pv.1.name).Nodup) (hparams : ∀ pv ∈ bound, spec.param pv.1.name = some pv.1) :
    spread_call spec name [] (spelledArgs bound) = .ok (spelledArgs bound) := by
  have hloop : bound.foldlM (fun acc pv => spreadOne spec name acc (pv.1.name, spelledValue pv)) [] =
      .ok ([] ++ spelledArgs bound) := by
    refine foldlM_map fun pre pv post hsplit => ?_
    have hnew := not_mem_of_split hdistinct hsplit
    have hparam := hparams pv (hsplit ▸ List.mem_append_right pre List.mem_cons_self)
    unfold spreadOne
    rw [hparam]
    exact if_neg hnew
  have hfew : ¬ ([] : List Value).length > spec.params.length := Nat.not_lt_zero _
  unfold spread_call
  rw [if_neg hfew, List.zip_nil_right]
  unfold spelledArgs
  rw [List.foldlM_map, hloop]
  rfl

end Arguments

/-! ## Binding -/

section Binding

variable {foreign : Value → Text} {re_error : Text → Option Text}

theorem refuseWhen_ok_iff {c : Prop} [Decidable c] {refusal : Refusal} : refuseWhen c refusal = .ok () ↔ ¬ c := by
  unfold refuseWhen
  by_cases h : c
  · rw [if_pos h]
    exact ⟨fun hno => (error_ne_ok hno).elim, fun hno => (hno h).elim⟩
  · rw [if_neg h]
    exact ⟨fun _ => h, fun _ => rfl⟩

/-- What is there, or a refusal. -/
theorem elim_ok_iff {α : Type} {x : Option α} {refusal : Refusal} {a : α} :
    x.elim (throw refusal) pure = (.ok a : Except Refusal α) ↔ x = some a := by
  cases x with
  | none => exact ⟨fun h => (error_ne_ok h).elim, fun h => nomatch h⟩
  | some b => exact ⟨fun h => congrArg some (Except.ok.inj h), fun h => congrArg Except.ok (Option.some.inj h)⟩

theorem unit_elim_ok_iff {α : Type} {x : Option α} {f : α → Refusal} :
    x.elim (pure ()) (fun a => throw (f a)) = (.ok () : Except Refusal Unit) ↔ x = none := by
  cases x with
  | none => exact ⟨fun _ => rfl, fun _ => rfl⟩
  | some b => exact ⟨fun h => (error_ne_ok h).elim, fun h => nomatch h⟩

/-- The tests of a typed value. -/
structure Accepts (re_error : Text → Option Text) (param : CheckParam) (value : CheckValue) : Prop where
  pattern : (if param.pattern then re_error value.textOf else none) = none
  nonempty : ¬ (param.nonempty ∧ value.textOf = [])
  event : ¬ (param.event ∧ ¬ isRequestEvent (Text.strip value.textOf))
  key : ¬ (param.key ∧ ¬ pressable value.textOf)

/-- **What one argument is bound to.** -/
theorem bindOne_ok_iff {name key : Text} {spec : CheckSpec} {value : Value} {kv : Text × CheckValue} :
    bindOne foreign re_error name spec key value = .ok kv ↔ ∃ param typed, spec.param key = some param ∧
      _typed value param.type = some typed ∧ Accepts re_error param typed ∧
        kv = (key, if param.path then _rooted typed else typed) := by
  unfold bindOne
  constructor
  · intro h
    obtain ⟨param, hparam, h⟩ := bind_ok_iff.1 h
    obtain ⟨typed, htyped, h⟩ := bind_ok_iff.1 h
    obtain ⟨_, hpattern, h⟩ := bind_ok_iff.1 h
    obtain ⟨_, hnonempty, h⟩ := bind_ok_iff.1 h
    obtain ⟨_, hevent, h⟩ := bind_ok_iff.1 h
    obtain ⟨_, hkey, h⟩ := bind_ok_iff.1 h
    exact ⟨param, typed, elim_ok_iff.1 hparam, elim_ok_iff.1 htyped, ⟨unit_elim_ok_iff.1 hpattern,
      refuseWhen_ok_iff.1 hnonempty, refuseWhen_ok_iff.1 hevent, refuseWhen_ok_iff.1 hkey⟩, (Except.ok.inj h).symm⟩
  · rintro ⟨param, typed, hparam, htyped, hok, rfl⟩
    refine bind_ok_iff.2 ⟨param, elim_ok_iff.2 hparam, bind_ok_iff.2 ⟨typed, elim_ok_iff.2 htyped, ?_⟩⟩
    refine bind_ok_iff.2 ⟨(), unit_elim_ok_iff.2 hok.pattern, bind_ok_iff.2 ⟨(), refuseWhen_ok_iff.2 hok.nonempty, ?_⟩⟩
    exact bind_ok_iff.2 ⟨(), refuseWhen_ok_iff.2 hok.event, bind_ok_iff.2 ⟨(), refuseWhen_ok_iff.2 hok.key, rfl⟩⟩

/-- The arguments that a call has to have. -/
structure Complete (spec : CheckSpec) (keys : List Text) : Prop where
  required : ∀ p ∈ spec.params, ¬ (p.required ∧ p.name ∉ keys)
  one_of : ¬ (spec.one_of ≠ [] ∧ ∀ key ∈ spec.one_of, key ∉ keys)

/-- **What a call is bound to.** -/
theorem bind_eq_ok_iff {name : Text} {args : List (Text × Value)} {call : CheckCall} :
    bind foreign re_error name args .checks = .ok call ↔ ∃ spec, Table.checks.spec name = some spec ∧
      args.mapM (fun kv => bindOne foreign re_error name spec kv.1 kv.2) = .ok call.args ∧
      Complete spec (call.args.map (·.1)) ∧ call.name = name := by
  unfold bind
  constructor
  · intro h
    obtain ⟨spec, hspec, h⟩ := bind_ok_iff.1 h
    obtain ⟨bound, hbound, h⟩ := bind_ok_iff.1 h
    obtain ⟨_, hrequired, h⟩ := bind_ok_iff.1 h
    obtain ⟨_, hone, h⟩ := bind_ok_iff.1 h
    obtain rfl := Except.ok.inj h
    exact ⟨spec, elim_ok_iff.1 hspec, hbound, ⟨fun p hp => refuseWhen_ok_iff.1 (forM_ok_iff.1 hrequired p hp),
      refuseWhen_ok_iff.1 hone⟩, rfl⟩
  · rintro ⟨spec, hspec, hbound, hcomplete, rfl⟩
    refine bind_ok_iff.2 ⟨spec, elim_ok_iff.2 hspec, bind_ok_iff.2 ⟨call.args, hbound, ?_⟩⟩
    refine bind_ok_iff.2 ⟨(), forM_ok_iff.2 fun p hp => refuseWhen_ok_iff.2 (hcomplete.required p hp), ?_⟩
    exact bind_ok_iff.2 ⟨(), refuseWhen_ok_iff.2 hcomplete.one_of, rfl⟩

theorem mapM_asText : ∀ items : List Text, (items.map Value.str).mapM asText = some items
  | [] => rfl
  | s :: items => by
    rw [List.map_cons, List.mapM_cons, mapM_asText items]
    rfl

theorem mapM_asEntry : ∀ items : List (Text × Text),
    (items.map fun kv => (Key.str kv.1, Value.str kv.2)).mapM asEntry = some items
  | [] => rfl
  | kv :: items => by
    rw [List.map_cons, List.mapM_cons, mapM_asEntry items]
    rfl

/-- A typed value is of its type again. -/
theorem typed_value {value : Value} {declared : ParamType} {typed : CheckValue} (h : _typed value declared = some typed) :
    _typed typed.value declared = some typed := by
  unfold _typed at h
  split at h
  case h_8 items =>
    obtain ⟨texts, -, rfl⟩ := Option.map_eq_some_iff.1 h
    show ((texts.map Value.str).mapM asText).map CheckValue.list = _
    rw [mapM_asText]
    rfl
  case h_9 items =>
    obtain ⟨entries, -, rfl⟩ := Option.map_eq_some_iff.1 h
    show ((entries.map fun kv => (Key.str kv.1, Value.str kv.2)).mapM asEntry).map CheckValue.dict = _
    rw [mapM_asEntry]
    rfl
  case h_10 => cases h
  all_goals
    obtain rfl := Option.some.inj h
    rfl

theorem int_of_bindOne {name key : Text} {spec : CheckSpec} {value : Value} {kv : Text × CheckValue} {i : ℤ}
    (h : bindOne foreign re_error name spec key value = .ok kv) (hi : kv.2 = .int i) : value = .int i := by
  obtain ⟨param, typed, -, htyped, -, rfl⟩ := bindOne_ok_iff.1 h
  have hint : typed = .int i := by
    replace hi : (if param.path then _rooted typed else typed) = .int i := hi
    split at hi
    · unfold _rooted at hi
      split at hi
      · cases hi
      · exact hi
    · exact hi
  subst hint
  unfold _typed at htyped
  split at htyped
  case h_2 j => exact congrArg Value.int (CheckValue.int.inj (Option.some.inj htyped))
  case h_5 j => exact congrArg Value.int (CheckValue.int.inj (Option.some.inj htyped))
  case h_8 items =>
    obtain ⟨_, -, hno⟩ := Option.map_eq_some_iff.1 htyped
    cases hno
  case h_9 items =>
    obtain ⟨_, -, hno⟩ := Option.map_eq_some_iff.1 htyped
    cases hno
  all_goals cases htyped

theorem rooted_same {s : Text} (h : ∀ rest, s ≠ '$' :: rest) : _rooted (.str s) = .str s := by
  cases s with
  | nil => rfl
  | cons c s =>
    have hc : c ≠ '$' := by
      rintro rfl
      exact h s rfl
    unfold _rooted
    split
    · rename_i heq
      exact (hc (List.cons.inj (CheckValue.str.inj heq)).1).elim
    · rfl

theorem exists_rooted (s : Text) : ∃ t, _rooted (.str s) = .str t := by
  unfold _rooted
  split
  · exact ⟨_, rfl⟩
  · exact ⟨s, rfl⟩

/-- **An argument that is read back is bound to what it was bound to.** -/
theorem bindOne_spelled {name : Text} {spec : CheckSpec} (hspec : WellSpelled spec) {p : CheckParam}
    (hparam : spec.param p.name = some p) {value : Value} {v : CheckValue}
    (hbound : bindOne foreign re_error name spec p.name value = .ok (p.name, v))
    (hroot : p.path = true → ∀ rest, v ≠ .str ('$' :: rest)) :
    bindOne foreign re_error name spec p.name (spelledValue (p, v)) = .ok (p.name, v) := by
  obtain ⟨param, typed, hp, htyped, hok, heq⟩ := bindOne_ok_iff.1 hbound
  obtain rfl : p = param := Option.some.inj (hparam.symm.trans hp)
  have hv : v = if p.path then _rooted typed else typed := (Prod.mk.inj heq).2
  rw [bindOne_ok_iff]
  by_cases hpath : p.path = true
  · -- a path is a text that no other test reads
    obtain ⟨htype, hflags⟩ := hspec.paths p (List.mem_of_find?_eq_some hparam) hpath
    obtain ⟨⟨⟨hpattern, hnonempty⟩, hevent⟩, hkey⟩ : ((p.pattern = false ∧ p.nonempty = false) ∧ p.event = false) ∧
        p.key = false := by simpa only [Bool.or_eq_false_iff] using hflags
    have haccepts : ∀ s, Accepts re_error p (.str s) := fun s =>
      ⟨by simp [hpattern], by simp [hnonempty], by simp [hevent], by simp [hkey]⟩
    obtain ⟨s, rfl⟩ : ∃ s, typed = .str s := by
      rw [htype] at htyped
      cases value <;> first | (cases htyped; done) | exact ⟨_, (Option.some.inj htyped).symm⟩
    rw [if_pos hpath] at hv
    obtain ⟨t, ht⟩ := exists_rooted s
    rw [ht] at hv
    subst hv
    by_cases hempty : t = []
    · subst hempty
      have hdollar : spelledValue (p, .str []) = .str ['$'] := if_pos ⟨hpath, rfl⟩
      refine ⟨p, .str ['$'], hparam, ?_, haccepts _, ?_⟩
      · rw [hdollar, htype]
        rfl
      · rw [if_pos hpath]
        rfl
    · have hsame : spelledValue (p, .str t) = .str t := if_neg fun hno => hempty (CheckValue.str.inj hno.2)
      refine ⟨p, .str t, hparam, ?_, haccepts _, ?_⟩
      · rw [hsame, htype]
        rfl
      · rw [if_pos hpath, rooted_same fun rest hno => hroot hpath rest (congrArg CheckValue.str hno)]
  · rw [if_neg hpath] at hv
    subst hv
    have hsame : spelledValue (p, v) = v.value := if_neg fun hno => hpath hno.1
    refine ⟨p, v, hparam, ?_, hok, ?_⟩
    · rw [hsame]
      exact typed_value htyped
    · rw [if_neg hpath]

end Binding

/-! ## The round trip -/

section RoundTrip

variable {floatOf : Text → PyFloat} {elsewhere : Text → Option Expr} {leading_code_spans : Text → List Text}
  {isWord : Char → Bool} {foreign : Value → Text} {re_error : Text → Option Text}

/-- `==` of two calls: their arguments are a `dict`, which has no order. -/
structure CheckCall.Same (c d : CheckCall) : Prop where
  name : c.name = d.name
  args : c.args.Perm d.args

/-- **A call that its spelling brings back.** -/
structure Survives (floatOf : Text → PyFloat) (call : CheckCall) : Prop where
  kept : ∀ kv ∈ call.args, Keeps floatOf kv.2
  rooted : ∀ spec, Table.checks.spec call.name = some spec → ∀ p ∈ spec.params, p.path = true →
    ∀ rest, (p.name, CheckValue.str ('$' :: rest)) ∉ call.args

theorem lookup_eq_some_iff_mem {α β : Type} [BEq α] [LawfulBEq α] [DecidableEq α] : ∀ {l : List (α × β)} {k : α} {v : β},
    (l.map (·.1)).Nodup → (l.lookup k = some v ↔ (k, v) ∈ l) := by
  intro l
  induction l with
  | nil =>
    intro k v _
    exact ⟨fun h => (nomatch h), fun h => (List.not_mem_nil h).elim⟩
  | cons kv l ih =>
    intro k v h
    rw [List.map_cons, List.nodup_cons] at h
    obtain ⟨key, value⟩ := kv
    by_cases hk : k = key
    · subst hk
      rw [List.lookup_cons_self, List.mem_cons, Option.some.injEq]
      constructor
      · rintro rfl
        exact .inl rfl
      · rintro (heq | hmem)
        · exact (Prod.mk.inj heq).2.symm
        · exact (h.1 (List.mem_map.2 ⟨(k, v), hmem, rfl⟩)).elim
    · rw [List.lookup_cons, beq_eq_false_iff_ne.2 hk, List.mem_cons]
      show l.lookup k = some v ↔ _
      rw [ih h.2]
      exact ⟨.inr, fun hmem => hmem.resolve_left fun heq => hk (Prod.mk.inj heq).1⟩

theorem mem_bound {call : CheckCall} {spec : CheckSpec} {pv : CheckParam × CheckValue} :
    pv ∈ call.bound spec ↔ pv.1 ∈ spec.params ∧ call.arg pv.1.name = some pv.2 := by
  unfold CheckCall.bound
  rw [List.mem_filterMap]
  constructor
  · rintro ⟨p, hp, h⟩
    obtain ⟨v, hv, rfl⟩ := Option.map_eq_some_iff.1 h
    exact ⟨hp, hv⟩
  · rintro ⟨hp, hv⟩
    exact ⟨pv.1, hp, by rw [hv]; rfl⟩

theorem nodup_bound {spec : CheckSpec} (hspec : WellSpelled spec) (call : CheckCall) :
    ((call.bound spec).map fun pv => pv.1.name).Nodup := by
  have hsub : ((call.bound spec).map fun pv => pv.1.name).Sublist (spec.params.map (·.name)) := by
    unfold CheckCall.bound
    induction spec.params with
    | nil => exact List.Sublist.refl _
    | cons p params ih =>
      cases hp : call.arg p.name with
      | none =>
        rw [List.filterMap_cons_none (by rw [hp]; rfl), List.map_cons]
        exact ih.cons _
      | some v =>
        rw [List.filterMap_cons_some (by rw [hp]; rfl), List.map_cons, List.map_cons]
        exact ih.cons_cons _
  exact hspec.distinct.sublist hsub

theorem param_of_mem {spec : CheckSpec} (hspec : WellSpelled spec) {p : CheckParam} (hp : p ∈ spec.params) :
    spec.param p.name = some p := by
  have hget : Keyed.get (fun p : CheckParam => p.name) spec.params p.name = some p := Keyed.get_of_mem hspec.distinct hp
  exact hget

/-- What a call was bound from. -/
theorem bound_from {name : Text} {args : List (Text × Value)} {call : CheckCall} {spec : CheckSpec}
    (h : args.mapM (fun kv => bindOne foreign re_error name spec kv.1 kv.2) = .ok call.args) :
    call.args.map (·.1) = args.map (·.1) ∧ ∀ kv ∈ call.args, ∃ value, bindOne foreign re_error name spec kv.1 value = .ok kv := by
  have hall := mapM_ok_iff.1 h
  have hkey : ∀ (arg : Text × Value) (kv : Text × CheckValue),
      bindOne foreign re_error name spec arg.1 arg.2 = .ok kv → kv.1 = arg.1 := by
    intro arg kv harg
    obtain ⟨-, -, -, -, -, rfl⟩ := bindOne_ok_iff.1 harg
    rfl
  refine ⟨map_eq_of_forall₂ (hall.imp hkey), fun kv hkv => ?_⟩
  obtain ⟨arg, -, harg⟩ := exists_of_forall₂ hall kv hkv
  rw [← hkey arg kv harg] at harg
  exact ⟨arg.2, harg⟩

theorem same_bound {call : CheckCall} {spec : CheckSpec} (hspec : WellSpelled spec)
    (hkeys : (call.args.map (·.1)).Nodup) (hnames : ∀ kv ∈ call.args, ∃ p ∈ spec.params, p.name = kv.1) :
    ((call.bound spec).map fun pv => (pv.1.name, pv.2)).Perm call.args := by
  have hfst : ((call.bound spec).map fun pv => (pv.1.name, pv.2)).map (·.1) = (call.bound spec).map fun pv => pv.1.name :=
    List.map_map
  have hbound : ((call.bound spec).map fun pv => (pv.1.name, pv.2)).Nodup := by
    refine List.Nodup.of_map (fun kv : Text × CheckValue => kv.1) ?_
    rw [hfst]
    exact nodup_bound hspec call
  rw [List.perm_ext_iff_of_nodup hbound (List.Nodup.of_map _ hkeys)]
  rintro ⟨k, v⟩
  rw [List.mem_map]
  constructor
  · rintro ⟨pv, hpv, heq⟩
    rw [← heq]
    exact (lookup_eq_some_iff_mem hkeys).1 (mem_bound.1 hpv).2
  · intro hmem
    obtain ⟨p, hp, rfl⟩ := hnames (k, v) hmem
    exact ⟨(p, v), mem_bound.2 ⟨hp, (lookup_eq_some_iff_mem hkeys).2 hmem⟩, rfl⟩

/-- Equal calls have their arguments spelled in one order. -/
theorem CheckCall.Same.bound {c d : CheckCall} (h : c.Same d) (hkeys : (d.args.map (·.1)).Nodup) (spec : CheckSpec) :
    c.bound spec = d.bound spec := by
  have hkeys' : (c.args.map (·.1)).Nodup := (h.args.map (·.1)).nodup_iff.2 hkeys
  have harg : ∀ k, c.arg k = d.arg k := by
    intro k
    refine Option.ext fun v => ?_
    show c.args.lookup k = some v ↔ d.args.lookup k = some v
    rw [lookup_eq_some_iff_mem hkeys, lookup_eq_some_iff_mem hkeys']
    exact h.args.mem_iff
  unfold CheckCall.bound
  exact List.filterMap_congr fun p _ => by rw [harg p.name]

/-- **A spelling is bound as its arguments are.** -/
theorem parse_check_spelled {name : Text} {spec : CheckSpec} (hfind : Table.checks.spec name = some spec)
    (hname : Named name) {bound : List (CheckParam × CheckValue)} (hnames : ∀ pv ∈ bound, Named pv.1.name)
    (hkeeps : ∀ pv ∈ bound, Keeps floatOf pv.2) (hdistinct : (bound.map fun pv => pv.1.name).Nodup)
    (hparams : ∀ pv ∈ bound, spec.param pv.1.name = some pv.1) :
    parse_check floatOf elsewhere leading_code_spans isWord foreign re_error (spelled name bound) =
      bind foreign re_error name (spelledArgs bound) .checks := by
  have hline := newline_spelled hname hnames hkeeps
  have hunwrap : _unwrap (spelled name bound) [' '] = spelled name bound := by
    obtain ⟨c, t, hc, hshape⟩ := spelled_shape hname bound
    rw [hshape] at hline ⊢
    exact unwrap_same hc hline [' ']
  have hne : spelled name bound ≠ [] := by
    obtain ⟨c, t, -, hshape⟩ := spelled_shape hname bound
    rw [hshape]
    exact List.cons_ne_nil _ _
  have hcall : parse_call floatOf elsewhere (spelled name bound) = some (.call name [] (spelledArgs bound)) := by
    unfold parse_call parse_expression
    simp only [hunwrap]
    rw [if_neg hne, readCall_spelled hname hnames hkeeps]
    show some (Expr.parsed _) = _
    unfold Expr.parsed
    rw [takeArguments_spelled hdistinct hkeeps]
  have hedge : brokenEdge floatOf elsewhere (spelled name bound) (.call name [] (spelledArgs bound)) = none := if_pos hline
  unfold parse_check _parse
  simp only [hunwrap]
  rw [if_neg hne, hcall]
  simp only [hfind, hedge]
  rw [spread_call_spelled hdistinct hparams]
  rfl

/-- What a bound call is made of. -/
structure BoundBy (call : CheckCall) (spec : CheckSpec) : Prop where
  find : Table.checks.spec call.name = some spec
  keys : (call.args.map (·.1)).Nodup
  names : ∀ kv ∈ call.args, ∃ p ∈ spec.params, p.name = kv.1

theorem BoundBy.wellSpelled {call : CheckCall} {spec : CheckSpec} (h : BoundBy call spec) : WellSpelled spec :=
  checks_wellSpelled spec (List.mem_of_find?_eq_some h.find)

theorem BoundBy.named {call : CheckCall} {spec : CheckSpec} (h : BoundBy call spec) : Named call.name := by
  have hname : spec.name = call.name := by simpa using List.find?_some h.find
  rw [← hname]
  exact h.wellSpelled.named

theorem boundBy {name : Text} {args : List (Text × Value)} {call : CheckCall} (hkeys : (args.map (·.1)).Nodup)
    (hbind : bind foreign re_error name args .checks = .ok call) : ∃ spec, BoundBy call spec := by
  obtain ⟨spec, hfind, hargs, -, rfl⟩ := bind_eq_ok_iff.1 hbind
  obtain ⟨hfst, hfrom⟩ := bound_from hargs
  refine ⟨spec, hfind, by rwa [hfst], fun kv hkv => ?_⟩
  obtain ⟨value, hvalue⟩ := hfrom kv hkv
  obtain ⟨p, -, hp, -⟩ := bindOne_ok_iff.1 hvalue
  have hname : p.name = kv.1 := by simpa using List.find?_some hp
  exact ⟨p, List.mem_of_find?_eq_some hp, hname⟩

theorem keeps_bound {call : CheckCall} {spec : CheckSpec} (h : BoundBy call spec) (hs : Survives floatOf call) :
    ∀ pv ∈ call.bound spec, Keeps floatOf pv.2 := by
  intro pv hpv
  exact hs.kept _ ((lookup_eq_some_iff_mem h.keys).1 (mem_bound.1 hpv).2)

/-- **A bound call whose texts survive is read back from its spelling**, and is spelled again as it was. -/
theorem reread {name : Text} {args : List (Text × Value)} {call : CheckCall} (hkeys : (args.map (·.1)).Nodup)
    (hbind : bind foreign re_error name args .checks = .ok call) (hs : Survives floatOf call) :
    ∃ t, call.text = .ok t ∧ ∃ call', parse_check floatOf elsewhere leading_code_spans isWord foreign re_error t =
      .ok call' ∧ call'.Same call ∧ call'.text = .ok t := by
  obtain ⟨spec, hby⟩ := boundBy hkeys hbind
  obtain ⟨spec', hfind', hargs, hcomplete, rfl⟩ := bind_eq_ok_iff.1 hbind
  obtain rfl : spec = spec' := Option.some.inj (hby.find.symm.trans hfind')
  have hspec := hby.wellSpelled
  have hkeeps := keeps_bound hby hs
  have hparams : ∀ pv ∈ call.bound spec, spec.param pv.1.name = some pv.1 :=
    fun pv hpv => param_of_mem hspec (mem_bound.1 hpv).1
  have hnames : ∀ pv ∈ call.bound spec, Named pv.1.name := fun pv hpv => hspec.names pv.1 (mem_bound.1 hpv).1
  have hdistinct := nodup_bound hspec call
  have hperm := same_bound hspec hby.keys hby.names
  let call' : CheckCall := ⟨call.name, (call.bound spec).map fun pv => (pv.1.name, pv.2)⟩
  have hsame : call'.Same call := ⟨rfl, hperm⟩
  have hagain : bind foreign re_error call.name (spelledArgs (call.bound spec)) .checks = .ok call' := by
    rw [bind_eq_ok_iff]
    refine ⟨spec, hby.find, ?_, ?_, rfl⟩
    · unfold spelledArgs
      rw [mapM_ok_iff, List.forall₂_map_left_iff, List.forall₂_map_right_iff, List.forall₂_same]
      intro pv hpv
      have hmem := (lookup_eq_some_iff_mem hby.keys).1 (mem_bound.1 hpv).2
      obtain ⟨value, hvalue⟩ := (bound_from hargs).2 _ hmem
      refine bindOne_spelled hspec (hparams pv hpv) hvalue fun hpath rest hroot => ?_
      rw [hroot] at hmem
      exact hs.rooted spec hby.find pv.1 (mem_bound.1 hpv).1 hpath rest hmem
    · have hmem : ∀ k, k ∈ call'.args.map (·.1) ↔ k ∈ call.args.map (·.1) := fun k => (hperm.map (·.1)).mem_iff
      exact ⟨fun p hp hno => hcomplete.required p hp ⟨hno.1, fun h => hno.2 ((hmem p.name).2 h)⟩,
        fun hno => hcomplete.one_of ⟨hno.1, fun k hk h => hno.2 k hk ((hmem k).2 h)⟩⟩
  have htext := text_eq hby.find hkeeps
  refine ⟨spelled call.name (call.bound spec), htext, call', ?_, hsame, ?_⟩
  · rw [parse_check_spelled hby.find hby.named hnames hkeeps hdistinct hparams]
    exact hagain
  · have hbound := hsame.bound hby.keys spec
    have hkeeps' : ∀ pv ∈ call'.bound spec, Keeps floatOf pv.2 := by
      rw [hbound]
      exact hkeeps
    have hfind : Table.checks.spec call'.name = some spec := hby.find
    rw [text_eq hfind hkeeps', hbound]

theorem nodup_spread_call {spec : CheckSpec} (hspec : WellSpelled spec) {name : Text} {positional : List Value}
    {keywords args : List (Text × Value)} (h : spread_call spec name positional keywords = .ok args) :
    (args.map (·.1)).Nodup := by
  unfold spread_call at h
  split at h
  · cases h
  have hzip : (((spec.params.map (·.name)).zip positional).map (·.1)).Nodup :=
    hspec.distinct.sublist (map_fst_zip_sublist _ positional)
  have hkeep : ∀ kv ∈ keywords, ∀ acc acc' : List (Text × Value), (acc.map (·.1)).Nodup →
      spreadOne spec name acc kv = .ok acc' → (acc'.map (·.1)).Nodup := by
    intro kv _ acc acc' hacc hstep
    unfold spreadOne at hstep
    split at hstep
    · cases hstep
    split at hstep
    · cases hstep
    rename_i hnew
    obtain rfl := Except.ok.inj hstep
    rw [List.map_append, List.nodup_append]
    refine ⟨hacc, List.nodup_singleton _, fun a ha b hb hab => ?_⟩
    obtain rfl := List.mem_singleton.1 hb
    rw [hab] at ha
    exact hnew ha
  exact foldlM_inv hkeep hzip h

/-- **What is parsed was bound.** -/
theorem parse_check_ok {v : Text} {call : CheckCall}
    (h : parse_check floatOf elsewhere leading_code_spans isWord foreign re_error v = .ok call) :
    ∃ name args, (args.map (·.1)).Nodup ∧ bind foreign re_error name args .checks = .ok call := by
  unfold parse_check _parse at h
  simp only at h
  split at h
  · cases h
  split at h
  · rw [if_pos trivial] at h
    cases h
  · split at h
    · cases h
    · cases h
  · split at h
    · cases h
    rename_i spec hfind
    split at h
    · cases h
    obtain ⟨args, hargs, hbind⟩ := bind_ok_iff.1 h
    exact ⟨_, args, nodup_spread_call (checks_wellSpelled spec (List.mem_of_find?_eq_some hfind)) hargs, hbind⟩

end RoundTrip

section Declarations

variable (floatOf : Text → PyFloat) (elsewhere : Text → Option Expr) (leading_code_spans : Text → List Text)
  (isWord : Char → Bool) (foreign : Value → Text) (re_error : Text → Option Text)

/-- A call that is declared: one that a value parses to, or that a name and a `dict` of arguments are bound to. -/
inductive Declared (call : CheckCall) : Prop where
  | parsed (v : Text) (h : parse_check floatOf elsewhere leading_code_spans isWord foreign re_error v = .ok call)
  | bound (name : Text) (args : List (Text × Value)) (hkeys : (args.map (·.1)).Nodup)
      (h : bind foreign re_error name args .checks = .ok call)

/-- The spelling of the call reads back as the same call, and is its spelling again. -/
def ReadsBack (call : CheckCall) : Prop :=
  ∃ t, call.text = .ok t ∧ ∃ call', parse_check floatOf elsewhere leading_code_spans isWord foreign re_error t = .ok call' ∧
    call'.Same call ∧ call'.text = .ok t

variable {floatOf elsewhere leading_code_spans isWord foreign re_error}

theorem Declared.exists_bound {call : CheckCall}
    (h : Declared floatOf elsewhere leading_code_spans isWord foreign re_error call) :
    ∃ name args, (args.map (·.1)).Nodup ∧ bind foreign re_error name args .checks = .ok call := by
  cases h with
  | parsed v h => exact parse_check_ok h
  | bound name args hkeys h => exact ⟨name, args, hkeys, h⟩

variable (floatOf elsewhere leading_code_spans isWord foreign re_error)

/-- **The spelling of a check reads back as the check** where its texts survive; and a text is read
back from between its quotes exactly if it survives. -/
theorem spelling_reads_back :
    (∀ call, Declared floatOf elsewhere leading_code_spans isWord foreign re_error call → Survives floatOf call →
      ReadsBack floatOf elsewhere leading_code_spans isWord foreign re_error call) ∧
    (∀ c d, Declared floatOf elsewhere leading_code_spans isWord foreign re_error c →
      Declared floatOf elsewhere leading_code_spans isWord foreign re_error d → Survives floatOf c → Survives floatOf d →
        (c.text = d.text ↔ c.Same d)) ∧
    (∀ s rest, (∃ rest', readText (quoted s ++ rest) = some (s, rest')) ↔ survives s) := by
  have hreads : ∀ call, Declared floatOf elsewhere leading_code_spans isWord foreign re_error call →
      Survives floatOf call → ReadsBack floatOf elsewhere leading_code_spans isWord foreign re_error call := by
    intro call h hs
    obtain ⟨name, args, hkeys, hbind⟩ := h.exists_bound
    exact reread hkeys hbind hs
  refine ⟨hreads, fun c d hc hd hsc hsd => ⟨fun htext => ?_, fun hsame => ?_⟩, fun s rest => ?_⟩
  · -- both calls are what the one text is parsed to
    obtain ⟨t, ht, c', hparse, hsame, -⟩ := hreads c hc hsc
    obtain ⟨u, hu, d', hparse', hsame', -⟩ := hreads d hd hsd
    obtain rfl : t = u := Except.ok.inj (ht.symm.trans (htext.trans hu))
    obtain rfl : c' = d' := Except.ok.inj (hparse.symm.trans hparse')
    exact ⟨hsame.name.symm.trans hsame'.name, hsame.args.symm.trans hsame'.args⟩
  · obtain ⟨_, _, hkeys, hbind⟩ := hc.exists_bound
    obtain ⟨spec, hby⟩ := boundBy hkeys hbind
    obtain ⟨_, _, hkeys', hbind'⟩ := hd.exists_bound
    obtain ⟨spec', hby'⟩ := boundBy hkeys' hbind'
    have hfind := hby'.find
    rw [← hsame.name, hby.find] at hfind
    obtain rfl := Option.some.inj hfind
    rw [text_eq hby.find (keeps_bound hby hsc), text_eq hby'.find (keeps_bound hby' hsd), hsame.bound hby'.keys, hsame.name]
  · have hshape : quoted s ++ rest = '"' :: (s.flatMap quoteChar ++ '"' :: rest) := by simp [quoted]
    rw [hshape]
    exact readString_quoted_iff

end Declarations

/-- A check with two arguments, as `stdout(text="say \"hi\"", matches="\\d")` declares it. -/
def greeting : CheckCall :=
  ⟨"stdout".toList, [("text".toList, .str "say \"hi\"".toList), ("matches".toList, .str "\\d".toList)]⟩

/-- The same check, declared in the other order. -/
def greeting' : CheckCall :=
  ⟨"stdout".toList, [("matches".toList, .str "\\d".toList), ("text".toList, .str "say \"hi\"".toList)]⟩

theorem spelling_reads_back_greeting :
    ReadsBack (fun _ => .nan) (fun _ => none) (fun _ => []) (fun _ => false) (fun _ => []) (fun _ => none) greeting ∧
      greeting.text = greeting'.text ∧ survives "\\d".toList := by
  have hread := spelling_reads_back (fun _ => .nan) (fun _ => none) (fun _ => []) (fun _ => false) (fun _ => []) fun _ => none
  have hc : Declared (fun _ => .nan) (fun _ => none) (fun _ => []) (fun _ => false) (fun _ => []) (fun _ => none) greeting :=
    .parsed "stdout(text=\"say \\\"hi\\\"\", matches=\"\\\\d\")".toList rfl
  have hd : Declared (fun _ => .nan) (fun _ => none) (fun _ => []) (fun _ => false) (fun _ => []) (fun _ => none) greeting' :=
    .parsed "stdout(matches=\"\\d\", text=\"say \\\"hi\\\"\")".toList rfl
  have hsc : Survives (fun _ => .nan) greeting := by
    refine ⟨fun kv hkv => ?_, fun spec hspec p hp hpath rest hmem => ?_⟩
    · rcases List.mem_pair.1 hkv with rfl | rfl <;> rfl
    · rcases List.mem_pair.1 hmem with heq | heq
      · exact absurd (CheckValue.str.inj (Prod.mk.inj heq).2) (by simp)
      · exact absurd (CheckValue.str.inj (Prod.mk.inj heq).2) (by simp)
  have hperm : greeting.args.Perm greeting'.args := List.Perm.swap _ _ _
  have hsd : Survives (fun _ => .nan) greeting' :=
    ⟨fun kv hkv => hsc.kept kv (hperm.mem_iff.2 hkv),
      fun spec hspec p hp hpath rest hmem => hsc.rooted spec hspec p hp hpath rest (hperm.mem_iff.2 hmem)⟩
  exact ⟨hread.1 greeting hc hsc, (hread.2.1 greeting greeting' hc hd hsc hsd).2 ⟨rfl, hperm⟩,
    (hread.2.2 _ []).1 ⟨[], rfl⟩⟩

/-- **A backslash is not escaped in the spelling**, so the check that is read back looks for a backspace. -/
theorem spelling_drops_backslash :
    parse_check (fun _ => .nan) (fun _ => none) (fun _ => []) (fun _ => false) (fun _ => []) (fun _ => none)
      "stdout(matches=\"\\\\bfoo\")".toList = .ok ⟨"stdout".toList, [("matches".toList, .str "\\bfoo".toList)]⟩ ∧
    ¬ ReadsBack (fun _ => .nan) (fun _ => none) (fun _ => []) (fun _ => false) (fun _ => []) (fun _ => none)
      ⟨"stdout".toList, [("matches".toList, .str "\\bfoo".toList)]⟩ := by
  refine ⟨rfl, ?_⟩
  rintro ⟨t, ht, call, hparse, hsame, -⟩
  obtain rfl : "stdout(matches=\"\\bfoo\")".toList = t := Except.ok.inj ht
  obtain rfl : ⟨"stdout".toList, [("matches".toList, .str (Char.ofNat 8 :: "foo".toList))]⟩ = call := Except.ok.inj hparse
  have hargs := List.perm_singleton.1 hsame.args
  revert hargs
  decide

end Stablemate.Verify
