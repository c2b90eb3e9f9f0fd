import Stablemate.Model.Redact

/-!
# When redaction is complete

`redaction_complete_iff`: what a redactor returns for a sequence of chunks holds no needle
exactly when the cuts of `feed` tear none (`Torn`).

Rewriting replaces a character by bullets and striking by one bullet, so the returned text
and the struck text hold the same bullet-free words (`stream_alike`). Inside one section no
needle survives (`blot_clean`), so one that is left stands over a cut.
-/

namespace Stablemate.Redact

open Scan

/-! ## The spellings of a secret hold no bullet -/

theorem not_bullet_of_ascii {t : Text} (h : Text.Ascii t) : bullet ∉ t := fun hm => by
  have := h bullet hm
  revert this; decide

theorem base64Digit_ascii (d : ℕ) : (base64Digit d).toNat < 128 := by
  have hall : Text.Ascii base64Alphabet := .of_all (by decide)
  unfold base64Digit
  rw [List.getD_eq_getElem?_getD]
  cases h : base64Alphabet[d]? with
  | none => decide
  | some c => exact hall c (List.mem_of_getElem? h)

theorem b64encode_ascii : ∀ bytes : List ℕ, Text.Ascii (b64encode bytes)
  | [] => by simp [b64encode, Text.Ascii]
  | [a] => by simp [b64encode, Text.Ascii, base64Digit_ascii]
  | [a, b] => by simp [b64encode, Text.Ascii, base64Digit_ascii]
  | a :: b :: c :: rest => by
    have ih := b64encode_ascii rest
    simp only [b64encode, Text.Ascii, List.forall_mem_cons, base64Digit_ascii, true_and]
    exact ih

theorem quoteByte_ascii (b : ℕ) : Text.Ascii (quoteByte b) := by
  unfold quoteByte
  dsimp only
  split_ifs with h
  · intro d hd
    obtain rfl := List.mem_singleton.1 hd
    have hb := h.1
    interval_cases b <;> decide
  · intro d hd
    have hx : ∀ k, (Text.hexDigit true (k % 16)).toNat < 128 :=
      fun k => Text.hexDigit_ascii true (Nat.mod_lt _ (by decide))
    simp only [List.mem_cons, List.not_mem_nil, or_false] at hd
    rcases hd with rfl | rfl | rfl
    · decide
    · exact hx _
    · exact hx _

theorem not_bullet_derivedForms {s n : Text} (hs : bullet ∉ s) (hn : n ∈ derivedForms s) :
    bullet ∉ n := by
  simp only [derivedForms, List.mem_cons, List.not_mem_nil, or_false] at hn
  rcases hn with rfl | rfl | rfl | rfl
  · exact hs
  · exact not_bullet_of_ascii (b64encode_ascii _)
  · exact not_bullet_of_ascii (Text.Ascii.flatMap fun b _ => quoteByte_ascii b)
  · exact not_bullet_of_ascii (Text.jsonEscaped_ascii _)

theorem flatMap_ne_nil {α : Type} {f : α → Text} (hf : ∀ a, f a ≠ []) {l : List α} (hl : l ≠ []) :
    l.flatMap f ≠ [] := by
  obtain ⟨a, l, rfl⟩ := List.exists_cons_of_ne_nil hl
  simp [hf a]

theorem quoteByte_ne_nil (b : ℕ) : quoteByte b ≠ [] := by
  unfold quoteByte
  dsimp only
  split_ifs <;> simp

theorem derivedForms_ne_nil {s n : Text} (hs : s ≠ []) (hn : n ∈ derivedForms s) : n ≠ [] := by
  have hb := Text.utf8_ne_nil hs
  simp only [derivedForms, List.mem_cons, List.not_mem_nil, or_false] at hn
  rcases hn with rfl | rfl | rfl | rfl
  · exact hs
  · match Text.utf8 s, hb with
    | [_], _ => simp [b64encode]
    | [_, _], _ => simp [b64encode]
    | _ :: _ :: _ :: _, _ => simp [b64encode]
  · exact flatMap_ne_nil quoteByte_ne_nil hb
  · exact flatMap_ne_nil Text.jsonChar_ne_nil hs

/-! ## Every matcher of a redactor is plain -/

theorem PrefixPattern.plain {p : PrefixPattern} (hl : bullet ∉ p.lead) (hb : p.body bullet = false) :
    Plain bullet p.matchLen := by
  -- what the pattern reads, on a text that starts with its lead
  have key : ∀ r : Text, p.matchLen (p.lead ++ r) =
      if p.least ≤ ((clear bullet r).takeWhile p.body).length then
        p.lead.length + ((clear bullet r).takeWhile p.body).length else 0 := by
    intro r
    unfold matchLen
    rw [if_pos (List.prefix_append _ _), List.drop_left, takeWhile_clear hb r]
  refine ⟨fun s => ?_, fun s => ?_⟩
  · by_cases h : p.lead <+: s
    · obtain ⟨r, rfl⟩ := h
      rw [key, clear_append hl, key, clear_clear]
    · unfold matchLen
      rw [if_neg h, if_neg fun h' => h ((prefix_clear hl s).2 h')]
  · by_cases h : p.lead <+: s
    · obtain ⟨r, rfl⟩ := h
      rw [key, clear_append hl, List.length_append]
      have : ((clear bullet r).takeWhile p.body).length ≤ (clear bullet r).length :=
        (List.takeWhile_prefix _).length_le
      split <;> omega
    · unfold matchLen
      rw [if_neg h]; exact Nat.zero_le _

theorem prefix_patterns_plain : ∀ p ∈ PREFIX_PATTERNS, Plain bullet p.matchLen := by
  intro p hp
  have hall : ∀ p ∈ PREFIX_PATTERNS, bullet ∉ p.lead ∧ p.body bullet = false := by decide
  exact PrefixPattern.plain (hall p hp).1 (hall p hp).2

namespace SecretRedactor

variable {secrets : List Text} (R : SecretRedactor secrets)

theorem needle_ne_nil {n : Text} (hn : n ∈ R.needles) : n ≠ [] := by
  obtain ⟨s, -, hs, hn⟩ := (R.mem_needles n).1 hn
  exact derivedForms_ne_nil hs hn

theorem not_bullet_needle (hb : ∀ s ∈ secrets, bullet ∉ s) {n : Text} (hn : n ∈ R.needles) :
    bullet ∉ n := by
  obtain ⟨s, hs, -, hn⟩ := (R.mem_needles n).1 hn
  exact not_bullet_derivedForms (hb s hs) hn

/-- The matchers in the order `_rewrite` applies them. -/
def matchers : List (Text → ℕ) := R.needles.map startsAt ++ PREFIX_PATTERNS.map PrefixPattern.matchLen

theorem matchers_plain (hb : ∀ s ∈ secrets, bullet ∉ s) : ∀ m ∈ R.matchers, Plain bullet m := by
  intro m hm
  rcases List.mem_append.1 hm with hm | hm
  · obtain ⟨n, hn, rfl⟩ := List.mem_map.1 hm
    exact plain_startsAt (R.not_bullet_needle hb hn)
  · obtain ⟨p, hp, rfl⟩ := List.mem_map.1 hm
    exact prefix_patterns_plain p hp

theorem rewrite_eq (text : Text) :
    R.rewrite text = R.matchers.foldl (fun t m => sub m (List.replicate 4 bullet) 0 t) text := by
  have hfold : ∀ (ns : List Text) (t : Text), (∀ n ∈ ns, n ≠ []) →
      ns.foldl (fun t n => Text.replace n REDACTED t) t =
        ns.foldl (fun t n => sub (startsAt n) REDACTED 0 t) t := by
    intro ns
    induction ns with
    | nil => intro t _; rfl
    | cons n ns ih =>
      intro t h
      rw [List.foldl_cons, List.foldl_cons, ih _ fun n hn => h n (List.mem_cons_of_mem _ hn)]
      rw [Text.replace, if_neg (h n List.mem_cons_self)]
  unfold rewrite matchers
  rw [hfold _ _ fun n => R.needle_ne_nil, List.foldl_append, List.foldl_map, List.foldl_map]
  rfl

theorem blot_eq (text : Text) :
    R.blot text = R.matchers.foldl (fun t m => strike m bullet 0 t) text := by
  unfold blot matchers
  rw [List.foldl_append, List.foldl_map, List.foldl_map]

theorem rewrite_alike_blot (hb : ∀ s ∈ secrets, bullet ∉ s) (text : Text) :
    Alike bullet (R.rewrite text) (R.blot text) := by
  rw [rewrite_eq, blot_eq]
  exact foldl_alike (R.matchers_plain hb) 3 (Alike.refl bullet text)

theorem blot_forall₂ (text : Text) :
    List.Forall₂ (fun c d => d = c ∨ d = bullet) text (R.blot text) := by
  rw [blot_eq]; exact foldl_strike_forall₂ _ _

/-- **No needle survives inside one section.** -/
theorem blot_clean (hb : ∀ s ∈ secrets, bullet ∉ s) {n : Text} (hn : n ∈ R.needles) (text : Text) :
    ¬ n <:+: R.blot text := by
  rw [blot_eq]
  exact foldl_strike_clean (R.not_bullet_needle hb hn) (R.needle_ne_nil hn)
    (List.mem_append_left _ (List.mem_map_of_mem hn)) text

/-! ## What is fed, and what is returned -/

theorem stream_eq : ∀ (chunks : List Text) (buffer : Text),
    R.stream buffer chunks = ((R.pieces buffer chunks).map R.rewrite).flatten := by
  intro chunks
  induction chunks with
  | nil => intro buffer; simp [stream, pieces, flush]
  | cons c cs ih =>
    intro buffer
    unfold stream feed pieces
    dsimp only
    split
    · rw [ih]; rfl
    · rw [ih]; rfl

/-- One call of `redact` on an empty buffer is the stream of one chunk. -/
theorem redact_eq (line : Text) : (R.redact [] line).1 = R.stream [] [line] := by
  simp [redact, stream]

theorem stream_alike (hb : ∀ s ∈ secrets, bullet ∉ s) (buffer : Text) (chunks : List Text) :
    Alike bullet (R.stream buffer chunks) ((R.pieces buffer chunks).map R.blot).flatten := by
  rw [stream_eq]
  refine Alike.flatten ?_
  rw [List.forall₂_map_left_iff, List.forall₂_map_right_iff, List.forall₂_same]
  exact fun p _ => R.rewrite_alike_blot hb p

/-! ## A needle that is left stands over a cut -/

theorem blot_length (text : Text) : (R.blot text).length = text.length :=
  (R.blot_forall₂ text).length_eq.symm

theorem blots_forall₂ (ps : List Text) :
    List.Forall₂ (fun c d => d = c ∨ d = bullet) ps.flatten (ps.map R.blot).flatten := by
  induction ps with
  | nil => exact .nil
  | cons p ps ih => exact List.rel_append (R.blot_forall₂ p) ih

theorem blots_cut (ps : List Text) (k : ℕ) :
    ((ps.map R.blot).take k).flatten.length = (ps.take k).flatten.length := by
  rw [← List.map_take]; exact (R.blots_forall₂ _).length_eq.symm

/-- The struck characters of the sections are where the text and its blot differ. -/
theorem struck_flatten (ps : List Text) :
    (ps.map R.struck).flatten =
      List.zipWith (fun c d => c != d) ps.flatten (ps.map R.blot).flatten := by
  induction ps with
  | nil => rfl
  | cons p ps ih =>
    rw [List.map_cons, List.map_cons, List.flatten_cons, List.flatten_cons, List.flatten_cons, ih,
      List.zipWith_append (R.blot_length p).symm]
    rfl

/-- A character of the text is not struck iff the blotted text still has it. -/
theorem struck_false_iff {ps : List Text} {i : ℕ} :
    (ps.map R.struck).flatten[i]? = some false ↔
      ∃ c, ps.flatten[i]? = some c ∧ (ps.map R.blot).flatten[i]? = some c := by
  rw [struck_flatten, List.getElem?_zipWith]
  cases ps.flatten[i]? with
  | none => simp
  | some c =>
    cases (ps.map R.blot).flatten[i]? with
    | none => simp
    | some d =>
      rw [Option.some.injEq, bne_eq_false_iff_eq]
      exact ⟨fun h => ⟨c, rfl, by rw [h]⟩, fun ⟨_, h1, h2⟩ => Option.some.inj (h1.trans h2.symm)⟩

/-- **The blotted text holds a needle iff a needle is torn.** -/
theorem blots_infix_iff (hb : ∀ s ∈ secrets, bullet ∉ s) (ps : List Text) :
    (∃ n ∈ R.needles, n <:+: (ps.map R.blot).flatten) ↔ R.Torn ps := by
  constructor
  · rintro ⟨n, hn, x, y, hxy⟩
    have hne := R.needle_ne_nil hn
    have hnb := R.not_bullet_needle hb hn
    have hdrop : n <+: (ps.map R.blot).flatten.drop x.length :=
      ⟨y, by rw [← hxy, List.append_assoc, List.drop_left]⟩
    have hF := R.blots_forall₂ ps
    rcases infix_flatten_cases hne (ps.map R.blot) hxy.symm with ⟨p, hp, hw⟩ | ⟨k, hk, h1, h2⟩
    · obtain ⟨p, -, rfl⟩ := List.mem_map.1 hp
      exact absurd hw (R.blot_clean hb hn p)
    have htext := prefix_of_struck (List.forall₂_drop x.length hF) hnb hdrop
    rw [blots_cut] at h1 h2
    refine ⟨n, hn, x.length, _, htext, ⟨k, by simpa using hk, rfl⟩, h1, h2, fun i hi hin => ?_⟩
    -- both texts have the needle there
    obtain ⟨j, rfl⟩ := Nat.exists_eq_add_of_le hi
    have hj : j < n.length := by omega
    rw [List.prefix_iff_getElem?] at htext hdrop
    have e1 := htext j hj
    have e2 := hdrop j hj
    rw [List.getElem?_drop] at e1 e2
    exact R.struck_false_iff.2 ⟨_, e1, e2⟩
  · rintro ⟨n, hn, p, c, hp, -, -, -, hs⟩
    refine ⟨n, hn, ?_⟩
    have hdrop : n <+: (ps.map R.blot).flatten.drop p := by
      rw [List.prefix_iff_getElem?] at hp ⊢
      intro j hj
      have e := hp j hj
      obtain ⟨d, h1, h2⟩ := R.struck_false_iff.1 (hs (p + j) (by omega) (by omega))
      rw [List.getElem?_drop] at e ⊢
      rw [h2, ← h1, e]
    exact hdrop.isInfix.trans (List.drop_suffix _ _).isInfix

/-- **What is returned holds a needle iff a cut tears one.** -/
theorem stream_infix_iff (hb : ∀ s ∈ secrets, bullet ∉ s) (buffer : Text) (chunks : List Text) :
    (∃ n ∈ R.needles, n <:+: R.stream buffer chunks) ↔ R.Torn (R.pieces buffer chunks) := by
  rw [← R.blots_infix_iff hb]
  refine exists_congr fun n => and_congr_right fun hn => ?_
  exact (R.stream_alike hb buffer chunks).infix_iff (R.not_bullet_needle hb hn) (R.needle_ne_nil hn)

/-- A text fed in one section is redacted completely. -/
theorem not_torn_singleton (p : Text) : ¬ R.Torn [p] := by
  rintro ⟨n, -, p', c, -, ⟨k, hk, rfl⟩, h, -⟩
  obtain rfl : k = 0 := by simpa using hk
  simp at h

end SecretRedactor

/-- **Redaction is complete unless a cut tears a needle.** For every chunking, and for
every single line, what is returned holds no needle iff no needle stands over a cut of
`feed` with none of its characters replaced on either side. -/
theorem redaction_complete_iff (secrets : List Text) (hb : ∀ s ∈ secrets, bullet ∉ s)
    (R : SecretRedactor secrets) :
    (∀ chunks, (∀ n ∈ R.needles, ¬ n <:+: R.stream [] chunks) ↔ ¬ R.Torn (R.pieces [] chunks)) ∧
      ∀ line, (∀ n ∈ R.needles, ¬ n <:+: (R.redact [] line).1) ↔ ¬ R.Torn (R.pieces [] [line]) := by
  have hall : ∀ chunks, (∀ n ∈ R.needles, ¬ n <:+: R.stream [] chunks) ↔
      ¬ R.Torn (R.pieces [] chunks) := by
    intro chunks
    rw [← R.stream_infix_iff hb]
    push Not
    rfl
  exact ⟨hall, fun line => by rw [R.redact_eq]; exact hall [line]⟩

/-- The redactor of the secret `hunter2`. -/
def hunter2 : SecretRedactor ["hunter2".toList] := .init _

/-- A short line with the secret comes back without it. -/
theorem redaction_complete_short :
    (∀ s ∈ ["hunter2".toList], bullet ∉ s) ∧
      ∀ n ∈ hunter2.needles, ¬ n <:+: (hunter2.redact [] "login failed for hunter2".toList).1 :=
  ⟨by decide, ((redaction_complete_iff ["hunter2".toList] (by decide) hunter2).2 _).2
    (hunter2.not_torn_singleton _)⟩

/-- **A secret over the cut comes back whole**: 78 characters, cut three into the secret. -/
theorem redaction_torn_line :
    "hunter2".toList ∈ hunter2.needles ∧ (∀ s ∈ ["hunter2".toList], s ≠ [] ∧ bullet ∉ s) ∧
      "hunter2".toList <:+: (hunter2.redact [] ("hunter2".toList ++ List.replicate 71 ' ')).1 := by
  decide

end Stablemate.Redact
