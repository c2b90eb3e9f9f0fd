import Stablemate.Lib.Lists
import Stablemate.Proof.Mint

/-!
# Handles that resolve back

* `handles_resolve_iff`: over a set of ids, every handle expands to its id, distinct ids have
  distinct handles, `table` agrees with `abbreviate`, a handle that still expands over a larger
  set expands to the same id, and `shorten` puts handles for whole ids only, **exactly when the
  ids that get a slice have a prefix and no id is spelled like such a handle**.
* `prefixless_lost`: the handle of a prefixless ULID does not expand.
-/

namespace Stablemate.Ids

open PyJson (Value)

/-! ## The parts of an id -/

theorem split_eq (i : Text) : _split i = if (partition i).2 ≠ [] then partition i else ([], i) := rfl

theorem passes {s : Text} (h : '-' ∉ s) : ∀ c ∈ s, decide (c ≠ '-') = true := by
  intro c hc
  refine decide_eq_true ?_
  rintro rfl
  exact h hc

theorem partition_dash {before : Text} (h : '-' ∉ before) (s : Text) : partition (before ++ '-' :: s) = (before, s) := by
  unfold partition
  rw [List.takeWhile_append_of_pos (passes h), List.dropWhile_append_of_pos (passes h)]
  simp

theorem partition_of_not_mem {s : Text} (h : '-' ∉ s) : partition s = (s, []) := by
  unfold partition
  rw [List.takeWhile_eq_self_iff.2 (passes h), List.dropWhile_eq_nil_iff.2 (passes h), List.drop_nil]

theorem dash_not_mem_split (i : Text) : '-' ∉ (_split i).1 := by
  rw [split_eq]
  split
  · intro h
    have := List.mem_takeWhile_imp h
    simp at this
  · exact List.not_mem_nil

/-- What stands after the first dash is part of the id. -/
theorem length_split_le (i : Text) : (_split i).2.length ≤ i.length := by
  rw [split_eq]
  split
  · have hdrop : (partition i).2.length ≤ (i.dropWhile (· ≠ '-')).length := by
      unfold partition
      rw [List.length_drop]
      omega
    exact hdrop.trans (List.dropWhile_sublist _).length_le
  · exact le_rfl

section Handles

variable {blake2b : Text → Fin (2 ^ 80)} {S S' : List Text} {i j : Text} {min_len : ℤ}

theorem fingerprint_eq (blake2b : Text → Fin (2 ^ 80)) (i : Text) :
    _fingerprint blake2b i =
      if (_split i).2.length ≠ ULID_LEN then [] else _b32 (blake2b (_split i).2).val _FP_LEN := rfl

theorem fingerprint_cases (blake2b : Text → Fin (2 ^ 80)) (i : Text) :
    _fingerprint blake2b i = [] ∨ (_fingerprint blake2b i).length = _FP_LEN ∧ ULID_LEN ≤ i.length := by
  rw [fingerprint_eq]
  split
  · exact .inl rfl
  · rename_i hlen
    exact .inr ⟨length_b32 _ _, (not_not.1 hlen) ▸ length_split_le i⟩

theorem mem_fingerprint {c : Char} (h : c ∈ _fingerprint blake2b i) : c ∈ _CROCKFORD := by
  rw [fingerprint_eq] at h
  split at h
  · exact absurd h List.not_mem_nil
  · exact mem_b32 h

theorem dash_not_mem_slice (n : ℕ) : '-' ∉ (_fingerprint blake2b i).take n := by
  intro h
  have hmem := mem_fingerprint (List.mem_of_mem_take h)
  revert hmem
  decide

/-! ## The shortest slice -/

/-- The other ids' fingerprints, as a set. -/
def Others (blake2b : Text → Fin (2 ^ 80)) (S : List Text) (i f : Text) : Prop :=
  ∃ o ∈ S, o ≠ i ∧ _fingerprint blake2b o = f ∧ f ≠ []

/-- `n` is the least length, from `min_len` and `1` on, at which a piece of the fingerprint of `i`
stands at the front of no other id's. -/
structure Isolates (blake2b : Text → Fin (2 ^ 80)) (S : List Text) (min_len : ℤ) (i : Text) (n : ℕ) : Prop where
  minted : _fingerprint blake2b i ≠ []
  min_le : max min_len 1 ≤ n
  le_len : n ≤ _FP_LEN
  alone : ∀ f, Others blake2b S i f → ¬ (_fingerprint blake2b i).take n <+: f
  least : ∀ m : ℕ, max min_len 1 ≤ m → m < n → ∃ f, Others blake2b S i f ∧ (_fingerprint blake2b i).take m <+: f

theorem shortest_congr {fp : Text} {l l' : List Text} (h : ∀ f, f ∈ l ↔ f ∈ l') :
    shortest fp l min_len = shortest fp l' min_len := by
  unfold shortest
  congr 1
  funext slice_
  congr 1
  rw [Bool.eq_iff_iff, List.any_eq_true, List.any_eq_true]
  exact exists_congr fun f => and_congr_left' (h f)

theorem shortest_eq_some_iff {others : List Text} (h : ∀ f, f ∈ others ↔ Others blake2b S i f)
    (hfp : _fingerprint blake2b i ≠ []) {s : Text} :
    shortest (_fingerprint blake2b i) others min_len = some s ↔
      ∃ n, Isolates blake2b S min_len i n ∧ s = (_fingerprint blake2b i).take n := by
  have hfree : ∀ n : ℕ, (!others.any fun o => ((_fingerprint blake2b i).take n).isPrefixOf o) = true ↔
      ∀ f, Others blake2b S i f → ¬ (_fingerprint blake2b i).take n <+: f := by
    intro n
    rw [Bool.not_eq_true', List.any_eq_false]
    exact ⟨fun ha f hf hp => ha f ((h f).2 hf) (List.isPrefixOf_iff_prefix.2 hp),
      fun ha f hf hp => ha f ((h f).1 hf) (List.isPrefixOf_iff_prefix.1 hp)⟩
  unfold shortest lengths
  rw [List.find?_map, Option.map_eq_some_iff]
  refine exists_congr fun n => ?_
  rw [List.find?_range'_eq_some, List.mem_range'_1]
  simp only [Function.comp_apply, hfree]
  have h1 : 1 ≤ max min_len 1 := le_max_right _ _
  constructor
  · rintro ⟨⟨halone, hrange, hleast⟩, rfl⟩
    refine ⟨⟨hfp, by omega, by omega, halone, fun m hm hmn => ?_⟩, rfl⟩
    have hnot := hleast m (by omega) hmn
    rw [Bool.not_not, List.any_eq_true] at hnot
    obtain ⟨f, hf, hp⟩ := hnot
    exact ⟨f, (h f).1 hf, List.isPrefixOf_iff_prefix.1 hp⟩
  · rintro ⟨hn, rfl⟩
    obtain ⟨-, hmin, hle, halone, hleast⟩ := hn
    refine ⟨⟨halone, by omega, fun m hm hmn => ?_⟩, rfl⟩
    obtain ⟨f, hf, hp⟩ := hleast m (by omega) hmn
    rw [Bool.not_not, List.any_eq_true]
    exact ⟨f, (h f).2 hf, List.isPrefixOf_iff_prefix.2 hp⟩

/-! ## What a handle is -/

theorem mem_others (f : Text) :
    f ∈ ((S.filter (· ≠ i)).map (_fingerprint blake2b)).filter (· ≠ []) ↔ Others blake2b S i f := by
  simp only [List.mem_filter, List.mem_map, decide_eq_true_eq, Others]
  constructor
  · rintro ⟨⟨o, ⟨ho, hne⟩, rfl⟩, hf⟩
    exact ⟨o, ho, hne, rfl, hf⟩
  · rintro ⟨o, ho, hne, rfl, hf⟩
    exact ⟨⟨o, ⟨ho, hne⟩, rfl⟩, hf⟩

/-- The handle that a piece of the fingerprint makes. -/
def sliced (blake2b : Text → Fin (2 ^ 80)) (i : Text) (n : ℕ) : Text :=
  handleOf (_split i).1 ((_fingerprint blake2b i).take n)

theorem abbreviate_isolates {n : ℕ} (h : Isolates blake2b S min_len i n) :
    abbreviate blake2b i S min_len = sliced blake2b i n := by
  have hshort : shortest (_fingerprint blake2b i)
      (((S.filter (· ≠ i)).map (_fingerprint blake2b)).filter (· ≠ [])) min_len = some _ :=
    (shortest_eq_some_iff mem_others h.minted).2 ⟨n, h, rfl⟩
  unfold abbreviate
  simp only [if_neg h.minted, hshort]
  rfl

/-- A handle is the id itself, or made of a piece of its fingerprint. -/
theorem abbreviate_cases (blake2b : Text → Fin (2 ^ 80)) (S : List Text) (min_len : ℤ) (i : Text) :
    abbreviate blake2b i S min_len = i ∨ ∃ n, Isolates blake2b S min_len i n := by
  by_cases hfp : _fingerprint blake2b i = []
  · exact .inl (by simp only [abbreviate, if_pos hfp])
  · unfold abbreviate
    simp only [if_neg hfp]
    split
    · rename_i s hs
      obtain ⟨n, hn, -⟩ := (shortest_eq_some_iff mem_others hfp).1 hs
      exact .inr ⟨n, hn⟩
    · exact .inl rfl

theorem length_sliced_le {n : ℕ} (h : Isolates blake2b S min_len i n) (hpre : (_split i).1 = []) :
    (sliced blake2b i n).length < i.length := by
  have hlen := (fingerprint_cases blake2b i).resolve_left h.minted
  have hn := h.le_len
  unfold sliced handleOf
  rw [if_neg (not_not.2 hpre), List.length_take]
  have h16 : _FP_LEN < ULID_LEN := by decide
  omega

/-- A piece of a fingerprint is not empty. -/
theorem slice_ne_nil {n : ℕ} (h : Isolates blake2b S min_len i n) : (_fingerprint blake2b i).take n ≠ [] := by
  obtain ⟨hlen, -⟩ := (fingerprint_cases blake2b i).resolve_left h.minted
  have hmin := h.min_le
  have h1 : 1 ≤ max min_len 1 := le_max_right _ _
  have h16 : 0 < _FP_LEN := by decide
  intro hnil
  rw [List.take_eq_nil_iff] at hnil
  rcases hnil with hn | hfp
  · omega
  · exact h.minted hfp

theorem partition_sliced {n : ℕ} (hpre : (_split i).1 ≠ []) :
    partition (sliced blake2b i n) = ((_split i).1, (_fingerprint blake2b i).take n) := by
  unfold sliced handleOf
  rw [if_pos hpre]
  exact partition_dash (dash_not_mem_split i) _

/-- A handle with a slice is never the id it stands for. -/
theorem sliced_ne {n : ℕ} (h : Isolates blake2b S min_len i n) : sliced blake2b i n ≠ i := by
  intro heq
  by_cases hpre : (_split i).1 = []
  · have hlt := length_sliced_le h hpre
    rw [heq] at hlt
    exact lt_irrefl _ hlt
  · -- read as an id, the handle has too short a ULID part
    have hsplit : _split (sliced blake2b i n) = ((_split i).1, (_fingerprint blake2b i).take n) := by
      rw [split_eq, partition_sliced hpre, if_pos (slice_ne_nil h)]
    have hfp := h.minted
    rw [heq] at hsplit
    apply hfp
    rw [fingerprint_eq, if_pos]
    rw [hsplit, List.length_take]
    have hn := h.le_len
    have h16 : _FP_LEN < ULID_LEN := by decide
    omega

/-! ## Expanding -/

theorem means_iff {before s : Text} : means blake2b before s i = true ↔
    (_split i).1 = before ∧ s <+: _fingerprint blake2b i ∧ _fingerprint blake2b i ≠ [] := by
  unfold means
  rw [Bool.and_eq_true, Bool.and_eq_true, decide_eq_true_eq, decide_eq_true_eq, List.isPrefixOf_iff_prefix, and_assoc]

theorem expand_of_mem {handle : Text} (h : handle ∈ S) : expand blake2b handle S = some handle := by
  unfold expand
  rw [if_pos h]

/-- A handle without a dash means nothing. -/
theorem expand_of_no_dash {handle : Text} (h : handle ∉ S) (hdash : '-' ∉ handle) : expand blake2b handle S = none := by
  unfold expand
  rw [if_neg h, partition_of_not_mem hdash]
  rfl

theorem expand_sliced {n : ℕ} (h : Isolates blake2b S' min_len i n) (hpre : (_split i).1 ≠ [])
    (hfree : sliced blake2b i n ∉ S) :
    expand blake2b (sliced blake2b i n) S = some j ↔
      S.filter (means blake2b (_split i).1 ((_fingerprint blake2b i).take n)) = [j] := by
  unfold expand
  rw [if_neg hfree, partition_sliced hpre]
  simp only [if_neg (slice_ne_nil h)]
  split
  · rename_i k hk
    rw [hk, Option.some.injEq, List.singleton_inj]
  · rename_i hne
    exact ⟨fun h => (nomatch h), fun h => absurd h (hne j)⟩

theorem means_self {n : ℕ} (h : Isolates blake2b S min_len i n) :
    means blake2b (_split i).1 ((_fingerprint blake2b i).take n) i = true :=
  means_iff.2 ⟨rfl, List.take_prefix _ _, h.minted⟩

/-- Over the set it was minted in, a slice means its own id and no other. -/
theorem filter_means (hS : S.Nodup) (hi : i ∈ S) {n : ℕ} (h : Isolates blake2b S min_len i n) :
    S.filter (means blake2b (_split i).1 ((_fingerprint blake2b i).take n)) = [i] := by
  have honly : ∀ j ∈ S.filter (means blake2b (_split i).1 ((_fingerprint blake2b i).take n)), j = i := by
    intro j hj
    obtain ⟨hj, hmeans⟩ := List.mem_filter.1 hj
    obtain ⟨-, hp, hfp⟩ := means_iff.1 hmeans
    by_contra hne
    exact h.alone _ ⟨j, hj, hne, rfl, hfp⟩ hp
  have hmem : i ∈ S.filter (means blake2b (_split i).1 ((_fingerprint blake2b i).take n)) :=
    List.mem_filter.2 ⟨hi, means_self h⟩
  exact List.perm_singleton.1 ((List.perm_ext_iff_of_nodup (hS.filter _) (List.nodup_singleton i)).2 fun j =>
    ⟨fun hj => List.mem_singleton.2 (honly j hj), fun hj => List.mem_singleton.1 hj ▸ hmem⟩)

/-! ## The table -/

theorem mem_fingerprints {entry : Text × Text} {ids : List Text} :
    entry ∈ fingerprints blake2b ids ↔ entry.1 ∈ ids ∧ entry.2 = _fingerprint blake2b entry.1 := by
  unfold fingerprints
  simp only [List.mem_map, List.mem_eraseDups]
  constructor
  · rintro ⟨i, hi, rfl⟩
    exact ⟨hi, rfl⟩
  · rintro ⟨hi, hfp⟩
    exact ⟨entry.1, hi, Prod.ext rfl hfp.symm⟩

theorem mem_row_others (f : Text) :
    f ∈ ((fingerprints blake2b (S.filter (· ≠ []))).filter
      fun other => decide (other.1 ≠ i) && decide (other.2 ≠ [])).map Prod.snd ↔ Others blake2b S i f := by
  simp only [List.mem_map, List.mem_filter, mem_fingerprints, Bool.and_eq_true, decide_eq_true_eq, Others]
  constructor
  · rintro ⟨⟨o, fp⟩, ⟨⟨⟨ho, -⟩, hfp⟩, hne, hf⟩, rfl⟩
    exact ⟨o, ho, hne, hfp.symm, hf⟩
  · rintro ⟨o, ho, hne, hfp, hf⟩
    -- the empty text has no fingerprint
    have hempty : o ≠ [] := by
      rintro rfl
      exact hf (hfp ▸ rfl)
    exact ⟨(o, f), ⟨⟨⟨ho, hempty⟩, hfp.symm⟩, hne, hf⟩, rfl⟩

/-- **One row of the table is what `abbreviate` gives.** -/
theorem row_eq (blake2b : Text → Fin (2 ^ 80)) (S : List Text) (min_len : ℤ) (i : Text) :
    row (fingerprints blake2b (S.filter (· ≠ []))) min_len (i, _fingerprint blake2b i) =
      (i, abbreviate blake2b i S min_len) := by
  unfold row abbreviate
  dsimp only
  by_cases hfp : _fingerprint blake2b i = []
  · rw [if_pos hfp, if_pos hfp]
  · rw [if_neg hfp, if_neg hfp, shortest_congr fun f => (mem_row_others f).trans (mem_others f).symm]
    split <;> rfl

theorem table_eq (blake2b : Text → Fin (2 ^ 80)) (S : List Text) (min_len : ℤ) :
    table blake2b S min_len = (S.filter (· ≠ [])).eraseDups.map fun i => (i, abbreviate blake2b i S min_len) := by
  unfold table
  dsimp only
  conv_lhs => arg 2; unfold fingerprints
  rw [List.map_map]
  exact List.map_congr_left fun i _ => row_eq blake2b S min_len i

theorem lookup_table :
    (table blake2b S min_len).lookup i = if i ∈ S ∧ i ≠ [] then some (abbreviate blake2b i S min_len) else none := by
  rw [table_eq]
  have hmem : i ∈ S ∧ i ≠ [] ↔ i ∈ (S.filter (· ≠ [])).eraseDups := by
    rw [List.mem_eraseDups, List.mem_filter, decide_eq_true_eq]
  simp only [hmem]
  induction (S.filter (· ≠ [])).eraseDups with
  | nil => rfl
  | cons k ks ih =>
    rw [List.map_cons, List.lookup_cons, ih]
    by_cases hk : i = k
    · simp [hk]
    · simp [hk, beq_eq_false_iff_ne.2 hk]

end Handles

/-! ## Shortening -/

section Shorten

variable {isWord : Char → Bool} {S : List Text} {handle : Text → Text} {before : Option Char}

/-- A token that stands alone: at the edges of words, and no part of a path. -/
structure Whole (isWord : Char → Bool) (before : Option Char) (token rest : Text) : Prop where
  starts : boundary isWord before token.head? = true
  ends : boundary isWord token.getLast? rest.head? = true
  unslashed : before.any isSlash = false
  unslashing : rest.head?.any isSlash = false
  undotted : dotted isWord rest = false

/-- A text in which some whole ids of `S` stand as their handles, and nothing else has changed. -/
inductive Swapped (isWord : Char → Bool) (S : List Text) (handle : Text → Text) :
    Option Char → Text → Text → Prop
  | nil (before : Option Char) : Swapped isWord S handle before [] []
  | keep {before : Option Char} {c : Char} {s t : Text} :
      Swapped isWord S handle (some c) s t → Swapped isWord S handle before (c :: s) (c :: t)
  | swap {before : Option Char} {i s t : Text} : i ∈ S → Whole isWord before i s →
      Swapped isWord S handle i.getLast? s t → Swapped isWord S handle before (i ++ s) (handle i ++ t)

/-- The character before a text that is read after another one. -/
def lastOf (before : Option Char) (s : Text) : Option Char := s.getLast?.or before

theorem lastOf_cons (before : Option Char) (c : Char) (s : Text) : lastOf before (c :: s) = lastOf (some c) s := by
  cases s with
  | nil => rfl
  | cons d s => rw [lastOf, lastOf, List.getLast?_cons_cons, List.getLast?_cons, Option.some_or, Option.some_or]

theorem Swapped.kept {s t : Text} : ∀ {u : Text} {before : Option Char},
    Swapped isWord S handle (lastOf before u) s t → Swapped isWord S handle before (u ++ s) (u ++ t) := by
  intro u
  induction u with
  | nil => intro before h; exact h
  | cons c u ih =>
    intro before h
    rw [lastOf_cons] at h
    exact .keep (ih h)

/-- What is still to be dropped is read over. -/
theorem subTokens_skip (replacement : Text → Text) : ∀ (s : Text) (before : Option Char) (skip : ℕ),
    subTokens isWord replacement before skip s =
      subTokens isWord replacement (lastOf before (s.take skip)) 0 (s.drop skip) := by
  intro s
  induction s with
  | nil => intro before skip; cases skip <;> simp [subTokens]
  | cons c s ih =>
    intro before skip
    cases skip with
    | zero => rfl
    | succ skip =>
      rw [List.take_succ_cons, List.drop_succ_cons, lastOf_cons]
      exact ih (some c) skip

theorem idLength_le (s : Text) : idLength s ≤ s.length := by
  unfold idLength
  split
  · exact le_rfl
  · dsimp only
    split
    · rename_i h
      have hlen := h.2.2.2.1
      rw [List.length_take, List.length_drop] at hlen
      have h26 : 0 < ULID_LEN := by decide
      rw [List.length_cons]
      omega
    · exact Nat.zero_le _

/-- What `_ID_TOKEN` reads is a whole token. -/
theorem whole_of_tokenLength {s : Text} {n : ℕ} (h : tokenLength isWord before s = n + 1) :
    n + 1 ≤ s.length ∧ Whole isWord before (s.take (n + 1)) (s.drop (n + 1)) := by
  unfold tokenLength at h
  dsimp only at h
  split at h
  · cases h
  · rename_i hno
    simp only [Bool.or_eq_true, not_or, Bool.not_eq_true, Bool.not_eq_true', Bool.not_eq_false] at hno
    rw [h] at hno
    obtain ⟨⟨⟨⟨hslash, hstart⟩, hend⟩, hslash'⟩, hdot⟩ := hno
    have hhead : (s.take (n + 1)).head? = s.head? := by
      rw [List.head?_take, if_neg (Nat.succ_ne_zero n)]
    exact ⟨h ▸ idLength_le s, hhead.symm ▸ hstart, hend, hslash, hslash', hdot⟩

/-- **The scan swaps whole ids and keeps the rest**, when each token is kept or is an id of `S`
and gets its handle. -/
theorem subTokens_swapped {replacement : Text → Text}
    (hrep : ∀ token, replacement token = token ∨ token ∈ S ∧ replacement token = handle token) :
    ∀ (s : Text) (before : Option Char),
      Swapped isWord S handle before s (subTokens isWord replacement before 0 s) := by
  intro s
  induction hn : s.length using Nat.strongRecOn generalizing s with
  | ind n ih =>
    intro before
    subst hn
    cases s with
    | nil => exact .nil before
    | cons c s =>
      unfold subTokens
      split
      · exact .keep (ih s.length (Nat.lt_succ_self _) s rfl (some c))
      · rename_i length hlen
        obtain ⟨hle, hwhole⟩ := whole_of_tokenLength hlen
        have hrest := ih (s.drop length).length (by rw [List.length_drop, List.length_cons]; omega) _ rfl
          (lastOf (some c) (s.take length))
        rw [← subTokens_skip] at hrest
        have hcut : (c :: s).take (length + 1) ++ s.drop length = c :: s :=
          List.take_append_drop (length + 1) (c :: s)
        rw [List.take_succ_cons, List.drop_succ_cons] at hwhole
        rw [List.take_succ_cons] at hcut ⊢
        conv_lhs => rw [← hcut]
        rcases hrep (c :: s.take length) with hsame | ⟨hmem, hto⟩
        · rw [hsame]
          exact .kept (lastOf_cons before c _ ▸ hrest)
        · rw [hto]
          refine .swap hmem hwhole ?_
          have hlast : (c :: s.take length).getLast? = lastOf (some c) (s.take length) := by
            rw [← lastOf_cons none, lastOf, List.getLast?_cons, Option.some_or]
          exact hlast ▸ hrest

mutual

/-- A value in which only texts have changed, each by swaps. A tuple counts as a list. -/
inductive Shortened (isWord : Char → Bool) (S : List Text) (handle : Text → Text) : Value → Value → Prop
  | none : Shortened isWord S handle .none .none
  | bool (b : Bool) : Shortened isWord S handle (.bool b) (.bool b)
  | int (i : ℤ) : Shortened isWord S handle (.int i) (.int i)
  | float (x : PyJson.PyFloat) : Shortened isWord S handle (.float x) (.float x)
  | model (shown : Text) (fields : PyJson.Entries) :
      Shortened isWord S handle (.model shown fields) (.model shown fields)
  | other (shown : Text) : Shortened isWord S handle (.other shown) (.other shown)
  | str {s t : Text} : Swapped isWord S handle none s t → Shortened isWord S handle (.str s) (.str t)
  | list {xs ys : List Value} : ShortenedItems isWord S handle xs ys →
      Shortened isWord S handle (.list xs) (.list ys)
  | tuple {xs ys : List Value} : ShortenedItems isWord S handle xs ys →
      Shortened isWord S handle (.tuple xs) (.list ys)
  | dict {kvs kvs' : PyJson.Entries} : ShortenedEntries isWord S handle kvs kvs' →
      Shortened isWord S handle (.dict kvs) (.dict kvs')

inductive ShortenedItems (isWord : Char → Bool) (S : List Text) (handle : Text → Text) :
    List Value → List Value → Prop
  | nil : ShortenedItems isWord S handle [] []
  | cons {x y : Value} {xs ys : List Value} : Shortened isWord S handle x y →
      ShortenedItems isWord S handle xs ys → ShortenedItems isWord S handle (x :: xs) (y :: ys)

/-- The keys are kept. -/
inductive ShortenedEntries (isWord : Char → Bool) (S : List Text) (handle : Text → Text) :
    PyJson.Entries → PyJson.Entries → Prop
  | nil : ShortenedEntries isWord S handle [] []
  | cons {k : PyJson.Key} {v w : Value} {kvs kvs' : PyJson.Entries} : Shortened isWord S handle v w →
      ShortenedEntries isWord S handle kvs kvs' → ShortenedEntries isWord S handle ((k, v) :: kvs) ((k, w) :: kvs')

end

variable {handles : List (Text × Text)}

mutual

theorem shorten_shortened (htext : ∀ s, Swapped isWord S handle none s (shortenText isWord handles s)) :
    ∀ data : Value, Shortened isWord S handle data (shorten isWord handles data)
  | .none => .none
  | .bool b => .bool b
  | .int i => .int i
  | .float x => .float x
  | .model shown fields => .model shown fields
  | .other shown => .other shown
  | .str s => .str (htext s)
  | .list xs => .list (shortenItems_shortened htext xs)
  | .tuple xs => .tuple (shortenItems_shortened htext xs)
  | .dict kvs => .dict (shortenEntries_shortened htext kvs)

theorem shortenItems_shortened (htext : ∀ s, Swapped isWord S handle none s (shortenText isWord handles s)) :
    ∀ xs : List Value, ShortenedItems isWord S handle xs (shortenItems isWord handles xs)
  | [] => .nil
  | x :: xs => .cons (shorten_shortened htext x) (shortenItems_shortened htext xs)

theorem shortenEntries_shortened (htext : ∀ s, Swapped isWord S handle none s (shortenText isWord handles s)) :
    ∀ kvs : PyJson.Entries, ShortenedEntries isWord S handle kvs (shortenEntries isWord handles kvs)
  | [] => .nil
  | (_, v) :: kvs => .cons (shorten_shortened htext v) (shortenEntries_shortened htext kvs)

end

end Shorten

/-! ## Handles resolve back -/

section Resolves

variable {blake2b : Text → Fin (2 ^ 80)} {isWord : Char → Bool} {S S' : List Text} {min_len : ℤ}

/-- What a set of ids wants of its handles, in itself and in a larger set. -/
structure Resolves (blake2b : Text → Fin (2 ^ 80)) (isWord : Char → Bool) (S S' : List Text) (min_len : ℤ) : Prop where
  back : ∀ i ∈ S, expand blake2b (abbreviate blake2b i S min_len) S = some i
  distinct : ∀ i ∈ S, ∀ j ∈ S, abbreviate blake2b i S min_len = abbreviate blake2b j S min_len → i = j
  tabled : ∀ i ∈ S, (table blake2b S min_len).lookup i = some (abbreviate blake2b i S min_len)
  later : ∀ i ∈ S, ∀ k, expand blake2b (abbreviate blake2b i S min_len) S' = some k → k = i
  whole : ∀ data, Shortened isWord S (abbreviate blake2b · S min_len) data
    (shorten isWord (table blake2b S min_len) data)

/-- The ids that some piece of their fingerprint tells apart have a prefix, and the shortest such
piece after that prefix spells no id. -/
structure Apart (blake2b : Text → Fin (2 ^ 80)) (S S' : List Text) (min_len : ℤ) : Prop where
  nonempty : [] ∉ S
  prefixed : ∀ i ∈ S, ∀ n, Isolates blake2b S min_len i n → (_split i).1 ≠ []
  unspelled : ∀ i ∈ S, ∀ n, Isolates blake2b S min_len i n →
    (_split i).1 ++ '-' :: (_fingerprint blake2b i).take n ∉ S'

theorem sliced_eq {i : Text} (n : ℕ) (hpre : (_split i).1 ≠ []) :
    sliced blake2b i n = (_split i).1 ++ '-' :: (_fingerprint blake2b i).take n := by
  unfold sliced handleOf
  rw [if_pos hpre]

theorem Apart.not_mem (h : Apart blake2b S S' min_len) {i : Text} (hi : i ∈ S) {n : ℕ}
    (hn : Isolates blake2b S min_len i n) : sliced blake2b i n ∉ S' :=
  sliced_eq n (h.prefixed i hi n hn) ▸ h.unspelled i hi n hn

theorem Apart.back (h : Apart blake2b S S' min_len) (hsub : S ⊆ S') (hS : S.Nodup) {i : Text} (hi : i ∈ S) :
    expand blake2b (abbreviate blake2b i S min_len) S = some i := by
  rcases abbreviate_cases blake2b S min_len i with hsame | ⟨n, hn⟩
  · rw [hsame]
    exact expand_of_mem hi
  · have hfree : sliced blake2b i n ∉ S := fun hmem => h.not_mem hi hn (hsub hmem)
    rw [abbreviate_isolates hn]
    exact (expand_sliced hn (h.prefixed i hi n hn) hfree).2 (filter_means hS hi hn)

theorem Apart.later (h : Apart blake2b S S' min_len) (hsub : S ⊆ S') {i k : Text} (hi : i ∈ S)
    (hk : expand blake2b (abbreviate blake2b i S min_len) S' = some k) : k = i := by
  rcases abbreviate_cases blake2b S min_len i with hsame | ⟨n, hn⟩
  · rw [hsame, expand_of_mem (hsub hi)] at hk
    exact (Option.some.inj hk).symm
  · rw [abbreviate_isolates hn] at hk
    have hone := (expand_sliced hn (h.prefixed i hi n hn) (h.not_mem hi hn)).1 hk
    have hmem := List.mem_filter.2 ⟨hsub hi, means_self hn⟩
    rw [hone] at hmem
    exact (List.mem_singleton.1 hmem).symm

/-- Two handles that are the same stand for one id. -/
theorem Apart.distinct (h : Apart blake2b S S' min_len) (hsub : S ⊆ S') (hS : S.Nodup) {i j : Text} (hi : i ∈ S)
    (hj : j ∈ S) (heq : abbreviate blake2b i S min_len = abbreviate blake2b j S min_len) : i = j := by
  have hback := h.back hsub hS hi
  rw [heq, h.back hsub hS hj] at hback
  exact (Option.some.inj hback).symm

theorem tabled_iff : (∀ i ∈ S, (table blake2b S min_len).lookup i = some (abbreviate blake2b i S min_len)) ↔ [] ∉ S := by
  constructor
  · intro h hmem
    have hrow := h [] hmem
    rw [lookup_table, if_neg fun h => h.2 rfl] at hrow
    cases hrow
  · intro h i hi
    rw [lookup_table, if_pos ⟨hi, fun heq => h (heq ▸ hi)⟩]

/-- What `table` replaces are ids of the set. -/
theorem shortenText_swapped (s : Text) :
    Swapped isWord S (abbreviate blake2b · S min_len) none s (shortenText isWord (table blake2b S min_len) s) := by
  refine subTokens_swapped (fun token => ?_) s none
  rw [lookup_table]
  split
  · rename_i h
    exact .inr ⟨h.1, rfl⟩
  · exact .inl rfl

/-- A handle without a prefix is lost. -/
theorem Resolves.prefixed (h : Resolves blake2b isWord S S' min_len) {i : Text} (hi : i ∈ S) {n : ℕ}
    (hn : Isolates blake2b S min_len i n) : (_split i).1 ≠ [] := by
  intro hpre
  have hback := h.back i hi
  rw [abbreviate_isolates hn] at hback
  by_cases hmem : sliced blake2b i n ∈ S
  · rw [expand_of_mem hmem] at hback
    exact sliced_ne hn (Option.some.inj hback)
  · have hdash : '-' ∉ sliced blake2b i n := by
      unfold sliced handleOf
      rw [if_neg (not_not.2 hpre)]
      exact dash_not_mem_slice n
    rw [expand_of_no_dash hmem hdash] at hback
    cases hback

/-- **Handles resolve back exactly when they are apart**: each id that a piece of its fingerprint
tells apart has a prefix, no id is spelled as a handle, and the empty text is no id. -/
theorem handles_resolve_iff (hS : S.Nodup) (hsub : S ⊆ S') :
    Resolves blake2b isWord S S' min_len ↔ Apart blake2b S S' min_len := by
  constructor
  · intro h
    refine ⟨tabled_iff.1 h.tabled, fun i hi n hn => h.prefixed hi hn, fun i hi n hn hmem => ?_⟩
    rw [← sliced_eq n (h.prefixed hi hn)] at hmem
    -- an id with this name answers for the handle
    have hlater := h.later i hi (sliced blake2b i n)
    rw [abbreviate_isolates hn] at hlater
    exact sliced_ne hn (hlater (expand_of_mem hmem))
  · intro h
    exact ⟨fun i hi => h.back hsub hS hi, fun i hi j hj heq => h.distinct hsub hS hi hj heq,
      tabled_iff.2 h.nonempty, fun i hi k hk => h.later hsub hi hk, shorten_shortened shortenText_swapped⟩

end Resolves

/-- One id, and a legacy one that is no handle of it. -/
theorem handles_resolve_acme :
    Resolves (fun _ => 0) (fun _ => true) ["ACME-00000000000000000000000001".toList, "ACME-42".toList]
      ["ACME-00000000000000000000000001".toList, "ACME-42".toList] 6 := by
  refine (handles_resolve_iff (by decide) (List.Subset.refl _)).2 ⟨by decide, fun i hi n _ => ?_, fun i hi n hn => ?_⟩
  · rw [List.mem_cons, List.mem_singleton] at hi
    rcases hi with rfl | rfl <;> decide
  · -- no id of the set is as long as a handle with six characters or more
    have hminted := hn.minted
    rw [List.mem_cons, List.mem_singleton] at hi
    rcases hi with rfl | rfl
    · have hn₆ : 6 ≤ n := by
        have := (le_max_left (6 : ℤ) 1).trans hn.min_le
        omega
      intro hmem
      have hlen := List.mem_map_of_mem (f := List.length) hmem
      revert hlen
      generalize hfp : _fingerprint (fun _ => 0) "ACME-00000000000000000000000001".toList = fp
      have hfp₁₆ : fp.length = 16 := hfp ▸ by decide
      have hpre : (_split "ACME-00000000000000000000000001".toList).1.length = 4 := by decide
      rw [List.length_append, List.length_cons, List.length_take, hfp₁₆, hpre]
      intro hlen
      have hcases : 4 + (min n 16 + 1) = 31 ∨ 4 + (min n 16 + 1) = 7 := by simpa using hlen
      omega
    · exact absurd rfl hminted

/-- **A prefixless ULID gets a handle that does not expand**, and a legacy id that is spelled like
a handle answers for it. -/
theorem prefixless_lost :
    (abbreviate (fun _ => 0) "00000000000000000000000001".toList ["00000000000000000000000001".toList] 6 =
        "000000".toList ∧
      expand (fun _ => 0) "000000".toList ["00000000000000000000000001".toList] = none) ∧
    (abbreviate (fun _ => 0) "ACME-00000000000000000000000001".toList
        ["ACME-00000000000000000000000001".toList, "ACME-000000".toList] 6 = "ACME-000000".toList ∧
      expand (fun _ => 0) "ACME-000000".toList
        ["ACME-00000000000000000000000001".toList, "ACME-000000".toList] = some "ACME-000000".toList) ∧
    ¬ Resolves (fun _ => 0) (fun _ => true) ["00000000000000000000000001".toList]
      ["00000000000000000000000001".toList] 6 := by
  refine ⟨⟨by decide, by decide⟩, ⟨by decide, by decide⟩, fun h => ?_⟩
  have hback := h.back _ (List.mem_singleton.2 rfl)
  revert hback
  decide

end Stablemate.Ids
