import Stablemate.Lib.Lists
import Stablemate.Model.Json

/-!
# A JSON text has one value

* `jsonChar_cut`, `quoted_cut`: where a character and a string end.
* `dumps_cut`: where a value ends, if a bracket, a comma or nothing comes after it.
* `dumps_injective`: **two values that are written alike are the same**.
-/

namespace Stablemate

/-! ## Strings -/

namespace Text

theorem hexDigit_injective {d e : ℕ} (hd : d < 16) (he : e < 16) (h : hexDigit false d = hexDigit false e) : d = e := by
  have hall : ∀ d < 16, ∀ e < 16, hexDigit false d = hexDigit false e → d = e := by decide
  exact hall d hd e he h

theorem unicodeEscape_cut {m n : ℕ} (hm : m < 0x10000) (hn : n < 0x10000) {x y : Text}
    (h : unicodeEscape m ++ x = unicodeEscape n ++ y) : m = n ∧ x = y := by
  unfold unicodeEscape at h
  simp only [List.cons_append, List.nil_append, List.cons.injEq, true_and] at h
  obtain ⟨h3, h2, h1, h0, hrest⟩ := h
  have h3 := hexDigit_injective (by omega) (by omega) h3
  have h2 := hexDigit_injective (by omega) (by omega) h2
  have h1 := hexDigit_injective (by omega) (by omega) h1
  have h0 := hexDigit_injective (by omega) (by omega) h0
  exact ⟨by omega, hrest⟩

/-- How a character is written: on its own, after a backslash, or by its number. -/
inductive Written (c : Char) : Text → Prop
  | plain (hquote : c ≠ '"') (hback : c ≠ '\\') : Written c [c]
  | short (d : Char) (hd : d ≠ 'u') (hc : (d, c.toNat) ∈ [('"', 34), ('\\', 92), ('n', 10), ('r', 13), ('t', 9), ('f', 12), ('b', 8)]) :
      Written c ['\\', d]
  | code (hlt : c.toNat < 0x10000) : Written c (unicodeEscape c.toNat)
  | pair (hle : 0x10000 ≤ c.toNat) :
      Written c (unicodeEscape (0xD800 + (c.toNat - 0x10000) / 1024) ++ unicodeEscape (0xDC00 + (c.toNat - 0x10000) % 1024))

theorem written (c : Char) : Written c (jsonChar c) := by
  unfold jsonChar
  dsimp only
  split_ifs with h1 h2 h3 h4 h5 h6 h7 h8 h9
  · subst h1
    exact .short '"' (by decide) (by decide)
  · subst h2
    exact .short '\\' (by decide) (by decide)
  · exact .short 'n' (by decide) (by rw [h3]; decide)
  · exact .short 'r' (by decide) (by rw [h4]; decide)
  · exact .short 't' (by decide) (by rw [h5]; decide)
  · exact .short 'f' (by decide) (by rw [h6]; decide)
  · exact .short 'b' (by decide) (by rw [h7]; decide)
  · exact .plain h1 h2
  · exact .code h9
  · exact .pair (by omega)

theorem toNat_injective {c d : Char} (h : c.toNat = d.toNat) : c = d :=
  Char.ext (UInt32.toNat_inj.1 h)

/-- A character is no surrogate. -/
theorem not_surrogate (c : Char) : ¬ (0xD800 ≤ c.toNat ∧ c.toNat < 0xE000) := by
  have hvalid := c.valid
  unfold UInt32.isValidChar Nat.isValidChar at hvalid
  change (c.toNat < 0xD800 ∨ 0xDFFF < c.toNat ∧ c.toNat < 0x110000) at hvalid
  omega

/-- What a written character and more spells, by how it is written. -/
theorem Written.cut {c d : Char} {s t x y : Text} (hc : Written c s) (hd : Written d t) (h : s ++ x = t ++ y) : c = d ∧ x = y := by
  have hbound : ∀ c : Char, c.toNat < 0x110000 := fun c => by
    have hvalid := c.valid
    unfold UInt32.isValidChar Nat.isValidChar at hvalid
    change (c.toNat < 0xD800 ∨ 0xDFFF < c.toNat ∧ c.toNat < 0x110000) at hvalid
    omega
  cases hc with
  | plain hquote hback =>
    cases hd with
    | plain => exact List.cons.inj h
    | short | code | pair => exact absurd (List.cons.inj h).1 hback
  | short e he hce =>
    cases hd with
    | plain hquote hback => exact absurd (List.cons.inj h).1.symm hback
    | short e' he' hde =>
      obtain ⟨-, h⟩ := List.cons.inj h
      obtain ⟨rfl, hrest⟩ := List.cons.inj h
      refine ⟨toNat_injective ?_, hrest⟩
      simp only [List.mem_cons, List.not_mem_nil, or_false, Prod.mk.injEq] at hce hde
      rcases hce with ⟨rfl, hce⟩ | ⟨rfl, hce⟩ | ⟨rfl, hce⟩ | ⟨rfl, hce⟩ | ⟨rfl, hce⟩ | ⟨rfl, hce⟩ | ⟨rfl, hce⟩ <;> simp_all
    | code | pair => exact absurd (List.cons.inj (List.cons.inj h).2).1 he
  | code hlt =>
    cases hd with
    | plain hquote hback => exact absurd (List.cons.inj h).1.symm hback
    | short e' he' hde => exact absurd (List.cons.inj (List.cons.inj h).2).1.symm he'
    | code hlt' =>
      obtain ⟨heq, hrest⟩ := unicodeEscape_cut hlt hlt' h
      exact ⟨toNat_injective heq, hrest⟩
    | pair hle =>
      -- the first of a pair of surrogates is no character
      have := hbound d
      rw [List.append_assoc] at h
      obtain ⟨heq, -⟩ := unicodeEscape_cut hlt (by omega) h
      exact absurd ⟨by omega, by omega⟩ (not_surrogate c)
  | pair hle =>
    have := hbound c
    rw [List.append_assoc] at h
    cases hd with
    | plain hquote hback => exact absurd (List.cons.inj h).1.symm hback
    | short e' he' hde => exact absurd (List.cons.inj (List.cons.inj h).2).1.symm he'
    | code hlt =>
      obtain ⟨heq, -⟩ := unicodeEscape_cut (by omega) hlt h
      exact absurd ⟨by omega, by omega⟩ (not_surrogate d)
    | pair hle' =>
      have := hbound d
      rw [List.append_assoc] at h
      obtain ⟨hhigh, h⟩ := unicodeEscape_cut (by omega) (by omega) h
      obtain ⟨hlow, hrest⟩ := unicodeEscape_cut (by omega) (by omega) h
      exact ⟨toNat_injective (by omega), hrest⟩

theorem jsonChar_cut (c d : Char) (x y : Text) (h : jsonChar c ++ x = jsonChar d ++ y) : c = d ∧ x = y :=
  (written c).cut (written d) h

/-- A written character does not begin with a quote. -/
theorem jsonChar_ne_quote (c : Char) (x y : Text) : jsonChar c ++ x ≠ '"' :: y := by
  intro h
  have hc := written c
  revert h
  generalize jsonChar c = s at hc
  intro h
  cases hc with
  | plain hquote => exact hquote (List.cons.inj h).1
  | short | code | pair => exact absurd (List.cons.inj h).1 (by decide)

end Text

namespace Json

theorem quoted_cut (s t x y : Text) (h : PyJson.quoted s ++ x = PyJson.quoted t ++ y) : s = t ∧ x = y := by
  have hcut : ∀ (s t : Text), Text.jsonEscaped s ++ '"' :: x = Text.jsonEscaped t ++ '"' :: y → s = t ∧ x = y := by
    intro s
    induction s with
    | nil =>
      intro t h
      cases t with
      | nil => exact ⟨rfl, (List.cons.inj h).2⟩
      | cons d t =>
        unfold Text.jsonEscaped at h
        rw [List.flatMap_cons, List.append_assoc] at h
        exact absurd h.symm (Text.jsonChar_ne_quote d _ _)
    | cons c s ih =>
      intro t h
      cases t with
      | nil =>
        unfold Text.jsonEscaped at h
        rw [List.flatMap_cons, List.append_assoc] at h
        exact absurd h (Text.jsonChar_ne_quote c _ _)
      | cons d t =>
        unfold Text.jsonEscaped at h ih
        rw [List.flatMap_cons, List.flatMap_cons, List.append_assoc, List.append_assoc] at h
        obtain ⟨rfl, hafter⟩ := Text.jsonChar_cut c d _ _ h
        obtain ⟨rfl, hrest⟩ := ih t hafter
        exact ⟨rfl, hrest⟩
  unfold PyJson.quoted at h
  rw [List.cons_append, List.cons_append, List.append_assoc, List.append_assoc] at h
  exact hcut s t (List.cons.inj h).2

/-! ## Words -/

def isNumeric (c : Char) : Bool := c.isDigit || c ∈ "+-.eE".toList

theorem mem_decimal {i : ℤ} {c : Char} (hc : c ∈ PyJson.decimal i) : c.isDigit = true ∨ c = '-' := by
  have hdigits : ∀ n, c ∈ Nat.toDigits 10 n → c.isDigit = true := fun n => Nat.isDigit_of_mem_toDigits (by decide) (by decide)
  unfold PyJson.decimal at hc
  split at hc
  · rcases List.mem_cons.1 hc with rfl | hc
    · exact .inr rfl
    · exact .inl (hdigits _ hc)
  · exact .inl (hdigits _ hc)

theorem decimal_injective : Function.Injective PyJson.decimal := by
  have hdigits : ∀ m n : ℕ, Nat.toDigits 10 m = Nat.toDigits 10 n → m = n := by
    intro m n h
    have hm := Nat.ofDigitChars_ten_toDigits (n := m)
    rw [h, Nat.ofDigitChars_ten_toDigits] at hm
    exact hm.symm
  have hminus : ∀ n : ℕ, '-' ∉ Nat.toDigits 10 n :=
    fun n hmem => absurd (Nat.isDigit_of_mem_toDigits (by decide) (by decide) hmem) (by decide)
  intro i j h
  unfold PyJson.decimal at h
  split_ifs at h with hi hj hj
  · have := hdigits _ _ (List.cons.inj h).2
    omega
  · exact absurd (h ▸ List.mem_cons_self) (hminus _)
  · exact absurd (h.symm ▸ List.mem_cons_self) (hminus _)
  · have := hdigits _ _ h
    omega

theorem isNumeric_float {token : Text} (h : isFloat token = true) : ∀ c ∈ token, isNumeric c = true := by
  unfold isFloat at h
  rw [Bool.and_eq_true, Bool.and_eq_true] at h
  exact List.all_eq_true.1 h.1.1

/-- A float is no integer. -/
theorem float_ne_decimal {token : Text} (h : isFloat token = true) (i : ℤ) : token ≠ PyJson.decimal i := by
  unfold isFloat at h
  rw [Bool.and_eq_true, Bool.and_eq_true] at h
  obtain ⟨c, hc, hmark⟩ := List.any_eq_true.1 h.1.2
  rintro rfl
  simp only [decide_eq_true_eq] at hmark
  rcases mem_decimal hc with hdigit | rfl
  · have hmarks : ∀ c ∈ ".eE".toList, c.isDigit = false := by decide
    rw [hmarks c hmark] at hdigit
    cases hdigit
  · exact absurd hmark (by decide)

end Json

namespace Word

def isNumber : Word → Bool
  | int _ | float _ => true
  | _ => false

theorem isNumber_iff (w : Word) : w.isNumber = w.text.all Json.isNumeric := by
  cases w with
  | null | nan | infinity | negInfinity => decide
  | bool b => cases b <;> decide
  | int i =>
    refine (List.all_eq_true.2 fun c hc => ?_).symm
    unfold Json.isNumeric
    rcases Json.mem_decimal hc with hdigit | rfl
    · rw [hdigit, Bool.true_or]
    · decide
  | float token => exact (List.all_eq_true.2 (Json.isNumeric_float token.2)).symm

theorem text_injective : Function.Injective text := by
  intro v w h
  have hnumber : v.isNumber = w.isNumber := by rw [isNumber_iff, isNumber_iff, h]
  cases v with
  | int i =>
    cases w with
    | int j => rw [Json.decimal_injective h]
    | float token => exact absurd h.symm (Json.float_ne_decimal token.2 i)
    | null | bool | nan | infinity | negInfinity => cases hnumber
  | float token =>
    cases w with
    | int j => exact absurd h (Json.float_ne_decimal token.2 j)
    | float token' => rw [Subtype.ext h]
    | null | bool | nan | infinity | negInfinity => cases hnumber
  | bool b =>
    cases w with
    | bool b' => revert h; revert b b'; decide
    | int | float => cases hnumber
    | null | nan | infinity | negInfinity => revert h; revert b; decide
  | null | nan | infinity | negInfinity =>
    cases w with
    | bool b => revert h; revert b; decide
    | int | float => cases hnumber
    | null | nan | infinity | negInfinity => revert h; decide

/-- A word has no comma, quote or bracket. -/
def isWordChar (c : Char) : Bool := c ∉ [',', '"', '[', ']', '{', '}']

theorem text_spec (w : Word) : w.text ≠ [] ∧ ∀ c ∈ w.text, isWordChar c = true := by
  have hnumeric : ∀ c, Json.isNumeric c = true → isWordChar c = true := by
    intro c hc
    by_contra hno
    have hall : ∀ c ∈ [',', '"', '[', ']', '{', '}'], Json.isNumeric c = false := by decide
    unfold isWordChar at hno
    rw [decide_eq_true_eq, not_not] at hno
    rw [hall c hno] at hc
    cases hc
  cases w with
  | null | nan | infinity | negInfinity => decide
  | bool b => cases b <;> decide
  | int i =>
    have hnumber := isNumber_iff (.int i)
    refine ⟨fun hnil => ?_, fun c hc => hnumeric c (List.all_eq_true.1 hnumber.symm c hc)⟩
    change PyJson.decimal i = [] at hnil
    unfold PyJson.decimal at hnil
    split at hnil
    · cases hnil
    · exact Nat.toDigits_ne_nil hnil
  | float token =>
    refine ⟨fun hnil => ?_, fun c hc => hnumeric c (Json.isNumeric_float token.2 c hc)⟩
    have hfloat := token.2
    rw [show token.val = [] from hnil] at hfloat
    exact absurd hfloat (by decide)

end Word

namespace Json

/-- Nothing comes, or a comma or bracket. -/
def Ended (x : Text) : Prop := ∀ c ∈ x.head?, Word.isWordChar c = false

theorem ended_cons {c : Char} (hc : Word.isWordChar c = false) (x : Text) : Ended (c :: x) := by
  intro d hd
  obtain rfl := Option.some.inj hd
  exact hc

/-- A run of characters ends where the first other one comes. -/
theorem run_cut {p : Char → Bool} {x y : Text} (hx : ∀ c ∈ x.head?, p c = false) (hy : ∀ c ∈ y.head?, p c = false) :
    ∀ {s t : Text}, (∀ c ∈ s, p c = true) → (∀ c ∈ t, p c = true) → s ++ x = t ++ y → s = t ∧ x = y
  | [], [], _, _, h => ⟨rfl, h⟩
  | [], d :: t, _, ht, h => by
    have := hx d (by rw [show x = d :: (t ++ y) from h]; rfl)
    rw [ht d List.mem_cons_self] at this
    cases this
  | c :: s, [], hs, _, h => by
    have := hy c (by rw [show y = c :: (s ++ x) from h.symm]; rfl)
    rw [hs c List.mem_cons_self] at this
    cases this
  | c :: s, d :: t, hs, ht, h => by
    obtain ⟨rfl, hafter⟩ := List.cons.inj h
    obtain ⟨rfl, hrest⟩ := run_cut hx hy (fun e he => hs e (List.mem_cons_of_mem _ he))
      (fun e he => ht e (List.mem_cons_of_mem _ he)) hafter
    exact ⟨rfl, hrest⟩

/-! ## Values -/

/-- The quote or bracket that a value begins with. -/
def opener : Json → Option Char
  | .word _ => none
  | .str _ => some '"'
  | .arr _ => some '['
  | .obj _ => some '{'

theorem dumps_head (v : Json) : ∃ c t, dumps v = c :: t ∧ opener v = if Word.isWordChar c then none else some c := by
  cases v with
  | word w =>
    obtain ⟨hne, hplain⟩ := w.text_spec
    obtain ⟨c, t, ht⟩ := List.exists_cons_of_ne_nil hne
    exact ⟨c, t, ht, (if_pos (hplain c (ht ▸ List.mem_cons_self))).symm⟩
  | str s => exact ⟨'"', _, rfl, rfl⟩
  | arr xs => exact ⟨'[', _, rfl, rfl⟩
  | obj kvs => exact ⟨'{', _, rfl, rfl⟩

/-- Values that are written alike begin alike. -/
theorem opener_eq {v w : Json} {x y : Text} (h : dumps v ++ x = dumps w ++ y) : opener v = opener w := by
  obtain ⟨c, s, hs, hv⟩ := dumps_head v
  obtain ⟨d, t, ht, hw⟩ := dumps_head w
  rw [hs, ht] at h
  rw [hv, hw, (List.cons.inj h).1]

/-- No value begins with a closing bracket. -/
theorem dumps_ne_close (v : Json) (x y : Text) : dumps v ++ x ≠ ']' :: y := by
  intro h
  obtain ⟨c, t, ht, hv⟩ := dumps_head v
  rw [ht] at h
  rw [(List.cons.inj h).1, if_neg (by decide)] at hv
  cases v <;> simp [opener] at hv

/-- The elements after the first one. -/
def others (ts : List Text) : Text := ts.flatMap (", ".toList ++ ·)

theorem commas_cons (t : Text) (ts : List Text) : commas (t :: ts) = t ++ others ts := by
  unfold commas others
  induction ts generalizing t with
  | nil => simp
  | cons t' ts ih => rw [List.intercalate_cons_cons, ih, List.flatMap_cons, List.append_assoc, List.append_assoc]

theorem ended_others (ts : List Text) {c : Char} (hc : Word.isWordChar c = false) (x : Text) : Ended (others ts ++ c :: x) := by
  cases ts with
  | nil => exact ended_cons hc x
  | cons t ts => exact ended_cons (by decide) _

theorem others_cons (t : Text) (ts : List Text) (x : Text) : others (t :: ts) ++ x = ", ".toList ++ (t ++ (others ts ++ x)) := by
  unfold others
  rw [List.flatMap_cons, List.append_assoc, List.append_assoc]

theorem comma_cut {x y : Text} (h : ", ".toList ++ x = ", ".toList ++ y) : x = y := List.append_cancel_left h

theorem field_cut {k l x y : Text} (h : PyJson.quoted k ++ (": ".toList ++ x) = PyJson.quoted l ++ (": ".toList ++ y)) :
    k = l ∧ x = y := by
  obtain ⟨rfl, hafter⟩ := quoted_cut k l _ _ h
  exact ⟨rfl, List.append_cancel_left hafter⟩

mutual

/-- **Where a value ends**, if nothing, a comma or a bracket comes after it. -/
theorem dumps_cut : ∀ (v w : Json) (x y : Text), Ended x → Ended y → dumps v ++ x = dumps w ++ y → v = w ∧ x = y
  | .word v, w, x, y, hx, hy, h => by
    have hopener := opener_eq h
    cases w with
    | word w =>
      obtain ⟨heq, hrest⟩ := run_cut hx hy v.text_spec.2 w.text_spec.2 h
      rw [Word.text_injective heq]
      exact ⟨rfl, hrest⟩
    | str | arr | obj => cases hopener
  | .str s, w, x, y, _, _, h => by
    have hopener := opener_eq h
    cases w with
    | str t =>
      obtain ⟨rfl, hrest⟩ := quoted_cut s t x y h
      exact ⟨rfl, hrest⟩
    | word | arr | obj => exact absurd hopener (by simp [opener])
  | .arr xs, w, x, y, _, _, h => by
    have hopener := opener_eq h
    cases w with
    | arr ys =>
      rw [dumps, dumps, List.cons_append, List.cons_append, List.append_assoc, List.append_assoc] at h
      obtain ⟨rfl, hrest⟩ := dumpsList_cut xs ys x y (List.cons.inj h).2
      exact ⟨rfl, hrest⟩
    | word | str | obj => exact absurd hopener (by simp [opener])
  | .obj kvs, w, x, y, _, _, h => by
    have hopener := opener_eq h
    cases w with
    | obj kws =>
      rw [dumps, dumps, List.cons_append, List.cons_append, List.append_assoc, List.append_assoc] at h
      obtain ⟨rfl, hrest⟩ := dumpsFields_cut kvs kws x y (List.cons.inj h).2
      exact ⟨rfl, hrest⟩
    | word | str | arr => exact absurd hopener (by simp [opener])

theorem dumpsList_cut : ∀ (xs ys : List Json) (x y : Text),
    commas (dumpsList xs) ++ ']' :: x = commas (dumpsList ys) ++ ']' :: y → xs = ys ∧ x = y
  | [], [], _, _, h => ⟨rfl, (List.cons.inj h).2⟩
  | [], w :: ys, x, y, h => by
    rw [dumpsList, dumpsList, commas_cons, List.append_assoc] at h
    exact absurd h.symm (dumps_ne_close w _ _)
  | v :: xs, [], x, y, h => by
    rw [dumpsList, dumpsList, commas_cons, List.append_assoc] at h
    exact absurd h (dumps_ne_close v _ _)
  | v :: xs, w :: ys, x, y, h => by
    rw [dumpsList, dumpsList, commas_cons, commas_cons, List.append_assoc, List.append_assoc] at h
    obtain ⟨rfl, hafter⟩ := dumps_cut v w _ _ (ended_others _ (by decide) x) (ended_others _ (by decide) y) h
    obtain ⟨rfl, hrest⟩ := others_cut xs ys x y hafter
    exact ⟨rfl, hrest⟩

theorem others_cut : ∀ (xs ys : List Json) (x y : Text),
    others (dumpsList xs) ++ ']' :: x = others (dumpsList ys) ++ ']' :: y → xs = ys ∧ x = y
  | [], [], _, _, h => ⟨rfl, (List.cons.inj h).2⟩
  | [], w :: ys, x, y, h => absurd (List.cons.inj h).1 (by decide)
  | v :: xs, [], x, y, h => absurd (List.cons.inj h).1 (by decide)
  | v :: xs, w :: ys, x, y, h => by
    rw [dumpsList, dumpsList, others_cons, others_cons] at h
    obtain ⟨rfl, hafter⟩ := dumps_cut v w _ _ (ended_others _ (by decide) x) (ended_others _ (by decide) y) (comma_cut h)
    obtain ⟨rfl, hrest⟩ := others_cut xs ys x y hafter
    exact ⟨rfl, hrest⟩

theorem dumpsFields_cut : ∀ (kvs kws : Fields) (x y : Text),
    commas (dumpsFields kvs) ++ '}' :: x = commas (dumpsFields kws) ++ '}' :: y → kvs = kws ∧ x = y
  | [], [], _, _, h => ⟨rfl, (List.cons.inj h).2⟩
  | [], (l, w) :: kws, x, y, h => by
    rw [dumpsFields, dumpsFields, commas_cons] at h
    exact absurd (List.cons.inj h).1 (by decide)
  | (k, v) :: kvs, [], x, y, h => by
    rw [dumpsFields, dumpsFields, commas_cons] at h
    exact absurd (List.cons.inj h).1 (by decide)
  | (k, v) :: kvs, (l, w) :: kws, x, y, h => by
    rw [dumpsFields, dumpsFields, commas_cons, commas_cons] at h
    simp only [List.append_assoc] at h
    obtain ⟨rfl, hvalue⟩ := field_cut h
    obtain ⟨rfl, hafter⟩ := dumps_cut v w _ _ (ended_others _ (by decide) x) (ended_others _ (by decide) y) hvalue
    obtain ⟨rfl, hrest⟩ := otherFields_cut kvs kws x y hafter
    exact ⟨rfl, hrest⟩

theorem otherFields_cut : ∀ (kvs kws : Fields) (x y : Text),
    others (dumpsFields kvs) ++ '}' :: x = others (dumpsFields kws) ++ '}' :: y → kvs = kws ∧ x = y
  | [], [], _, _, h => ⟨rfl, (List.cons.inj h).2⟩
  | [], (l, w) :: kws, x, y, h => absurd (List.cons.inj h).1 (by decide)
  | (k, v) :: kvs, [], x, y, h => absurd (List.cons.inj h).1 (by decide)
  | (k, v) :: kvs, (l, w) :: kws, x, y, h => by
    rw [dumpsFields, dumpsFields, others_cons, others_cons] at h
    simp only [List.append_assoc] at h
    obtain ⟨rfl, hvalue⟩ := field_cut (comma_cut h)
    obtain ⟨rfl, hafter⟩ := dumps_cut v w _ _ (ended_others _ (by decide) x) (ended_others _ (by decide) y) hvalue
    obtain ⟨rfl, hrest⟩ := otherFields_cut kvs kws x y hafter
    exact ⟨rfl, hrest⟩

end

/-- **Two values that are written alike are the same.** -/
theorem dumps_injective : Function.Injective dumps := by
  intro v w h
  have hnil : Ended [] := fun c hc => (nomatch hc)
  exact (dumps_cut v w [] [] hnil hnil (by rw [h])).1

end Json

end Stablemate
