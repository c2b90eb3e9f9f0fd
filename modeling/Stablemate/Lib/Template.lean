import Mathlib.Data.List.Basic
import Mathlib.Data.Nat.Init

/-!
# Texts with holes

A template is a text in which some parts stand for any value. `fullmatch` decides which texts are
instances of one.
-/

namespace Stablemate.Template

/-- One character, or a part that stands for a value. -/
inductive Part where
  | lit (c : Char)
  | hole
deriving DecidableEq

variable (fills : Char → Bool)

/-- The template with a value in each hole. -/
inductive Instance : List Part → List Char → Prop where
  | nil : Instance [] []
  | lit {ps : List Part} {t : List Char} (c : Char) (h : Instance ps t) : Instance (.lit c :: ps) (c :: t)
  | hole {ps : List Part} {t : List Char} (v : List Char) (hne : v ≠ []) (hv : ∀ c ∈ v, fills c = true)
      (h : Instance ps t) : Instance (.hole :: ps) (v ++ t)

/-- `re.fullmatch` of the pattern of a template. -/
def fullmatch : List Part → List Char → Bool
  | [], t => t = []
  | .lit _ :: _, [] => false
  | .lit c :: ps, d :: t => c = d && fullmatch ps t
  | .hole :: ps, t => (List.range t.length).any fun n => (t.take (n + 1)).all fills && fullmatch ps (t.drop (n + 1))

variable {fills}

/-- **A match is an instance.** -/
theorem fullmatch_iff : ∀ {ps : List Part} {t : List Char}, fullmatch fills ps t = true ↔ Instance fills ps t := by
  intro ps
  induction ps with
  | nil =>
    intro t
    constructor
    · intro h
      obtain rfl : t = [] := by simpa [fullmatch] using h
      exact .nil
    · intro h
      cases h
      rfl
  | cons p ps ih =>
    intro t
    cases p with
    | lit c =>
      cases t with
      | nil =>
        constructor
        · intro h
          cases h
        · intro h
          cases h
      | cons d t =>
        rw [fullmatch, Bool.and_eq_true, decide_eq_true_eq, ih]
        constructor
        · rintro ⟨rfl, h⟩
          exact .lit c h
        · intro h
          cases h with
          | lit _ h => exact ⟨rfl, h⟩
    | hole =>
      rw [fullmatch, List.any_eq_true]
      constructor
      · rintro ⟨n, hn, h⟩
        rw [List.mem_range] at hn
        rw [Bool.and_eq_true, List.all_eq_true, ih] at h
        have hne : t.take (n + 1) ≠ [] := by
          intro hno
          have hlen := congrArg List.length hno
          rw [List.length_take, List.length_nil] at hlen
          omega
        have hinst := Instance.hole (t.take (n + 1)) hne h.1 h.2
        rwa [List.take_append_drop] at hinst
      · intro h
        cases h with
        | hole v hne hv h =>
          rename_i rest
          have hpos : 0 < v.length := List.length_pos_iff.2 hne
          have hsucc : v.length - 1 + 1 = v.length := by omega
          refine ⟨v.length - 1, ?_, ?_⟩
          · rw [List.mem_range, List.length_append]
            omega
          · rw [hsucc, List.take_left, List.drop_left, Bool.and_eq_true, List.all_eq_true]
            exact ⟨hv, ih.2 h⟩

end Stablemate.Template
