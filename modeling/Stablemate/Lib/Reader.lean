import Mathlib.Data.List.Basic
import Mathlib.Data.Nat.Init

/-!
# Reading what was printed

Items that stand between commas, up to a bracket.
-/

namespace Stablemate

variable {α β : Type}

/-- What does not go on with the item that is read: a comma, or the bracket. -/
def Stops (close : Char) (rest : List Char) : Prop :=
  (∃ tail, rest = ',' :: ' ' :: tail) ∨ ∃ tail, rest = close :: tail

theorem Stops.exists_cons {close : Char} {rest : List Char} (h : Stops close rest) :
    ∃ c tail, rest = c :: tail ∧ (c = ',' ∨ c = close) := by
  rcases h with ⟨tail, rfl⟩ | ⟨tail, rfl⟩
  · exact ⟨',', ' ' :: tail, rfl, .inl rfl⟩
  · exact ⟨close, tail, rfl, .inr rfl⟩

/-- Reads at most `n` items with a comma between any two, and the bracket. -/
def readItems (item : List Char → Option (α × List Char)) (close : Char) : ℕ → List Char → Option (List α × List Char)
  | 0, _ => none
  | n + 1, text =>
    match item text with
    | some (x, ',' :: ' ' :: rest) => (readItems item close n rest).map fun found => (x :: found.1, found.2)
    | some (x, c :: rest) => if c = close then some ([x], rest) else none
    | _ => none

/-- `", ".join(texts)` -/
def commaList (texts : List (List Char)) : List Char := [',', ' '].intercalate texts

theorem commaList_cons (t u : List Char) (texts : List (List Char)) :
    commaList (t :: u :: texts) = t ++ ',' :: ' ' :: commaList (u :: texts) := by
  unfold commaList
  rw [List.intercalate_cons_cons]
  simp

theorem commaList_singleton (t : List Char) : commaList [t] = t := by
  unfold commaList
  simp

/-- Texts that are not empty are no more than the characters of their list. -/
theorem length_le_commaList : ∀ {texts : List (List Char)}, (∀ t ∈ texts, t ≠ []) →
    texts.length ≤ (commaList texts).length := by
  intro texts
  induction texts with
  | nil => exact fun _ => Nat.zero_le _
  | cons t texts ih =>
    intro h
    have hpos : 0 < t.length := List.length_pos_iff.2 (h t List.mem_cons_self)
    cases texts with
    | nil =>
      rw [commaList_singleton, List.length_singleton]
      omega
    | cons u texts =>
      have hrest := ih fun x hx => h x (List.mem_cons_of_mem t hx)
      rw [commaList_cons, List.length_append]
      simp only [List.length_cons] at hrest ⊢
      omega

/-- What is in no item, and is no separator, is not in the list. -/
theorem not_mem_commaList {c : Char} (hc : c ≠ ',') (hspace : c ≠ ' ') : ∀ {texts : List (List Char)},
    (∀ t ∈ texts, c ∉ t) → c ∉ commaList texts := by
  intro texts
  induction texts with
  | nil => exact fun _ => List.not_mem_nil
  | cons t texts ih =>
    intro h
    cases texts with
    | nil =>
      rw [commaList_singleton]
      exact h t List.mem_cons_self
    | cons u texts =>
      rw [commaList_cons, List.mem_append, List.mem_cons, List.mem_cons]
      rintro (hmem | rfl | rfl | hmem)
      · exact h t List.mem_cons_self hmem
      · exact hc rfl
      · exact hspace rfl
      · exact ih (fun x hx => h x (List.mem_cons_of_mem t hx)) hmem

/-- **Printed items are read back**, each as it is read alone. -/
theorem readItems_commaList {item : List Char → Option (α × List Char)} {close : Char} (hclose : close ≠ ',')
    {print : β → List Char} {value : β → α} : ∀ {xs : List β} {n : ℕ}, xs ≠ [] → xs.length ≤ n →
    (∀ x ∈ xs, ∀ rest, Stops close rest → item (print x ++ rest) = some (value x, rest)) → ∀ rest,
      readItems item close n (commaList (xs.map print) ++ close :: rest) = some (xs.map value, rest) := by
  intro xs
  induction xs with
  | nil => exact fun h => (h rfl).elim
  | cons x xs ih =>
    intro n _ hn hitem rest
    obtain ⟨n, rfl⟩ : ∃ m, n = m + 1 := ⟨n - 1, by rw [List.length_cons] at hn; omega⟩
    cases xs with
    | nil =>
      have hone := hitem x List.mem_cons_self (close :: rest) (.inr ⟨rest, rfl⟩)
      have hlone : commaList ([x].map print) = print x := commaList_singleton (print x)
      rw [hlone, readItems, hone]
      split
      · rename_i heq
        obtain ⟨-, htail⟩ := Prod.mk.inj (Option.some.inj heq)
        exact (hclose (List.cons.inj htail).1).elim
      · rename_i heq
        obtain ⟨hvalue, htail⟩ := Prod.mk.inj (Option.some.inj heq)
        obtain ⟨rfl, rfl⟩ := List.cons.inj htail
        rw [if_pos rfl, ← hvalue]
        rfl
      · rename_i hno
        exact (hno _ _ _ rfl).elim
    | cons y ys =>
      have hstops : Stops close (',' :: ' ' :: (commaList ((y :: ys).map print) ++ close :: rest)) := .inl ⟨_, rfl⟩
      have hone := hitem x List.mem_cons_self _ hstops
      have hrest := ih (List.cons_ne_nil y ys) (n := n) (by rw [List.length_cons] at hn; omega)
        (fun z hz => hitem z (List.mem_cons_of_mem x hz)) rest
      have hshape : commaList ((x :: y :: ys).map print) ++ close :: rest =
          print x ++ ',' :: ' ' :: (commaList ((y :: ys).map print) ++ close :: rest) := by
        rw [List.map_cons, List.map_cons, commaList_cons, List.append_assoc]
        rfl
      rw [hshape, readItems, hone]
      show (readItems item close n _).map _ = _
      rw [hrest]
      rfl

end Stablemate
