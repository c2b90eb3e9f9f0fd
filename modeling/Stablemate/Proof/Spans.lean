import Stablemate.Lib.Lists
import Stablemate.Model.Spans
import Stablemate.Proof.Text

/-!
# The two readers of leading code spans

* `digestAfter_eq_some_iff`, `plain_span_spec`: what the patterns match.
* `spansOf_after`: what the token reader makes of the text after a span, against the matches there.
* `spans_agree_iff`: **the readers agree exactly on the texts that hide nothing from the pattern**.
-/

namespace Stablemate.Spans

open Refs (isHex)

variable {reference : Text → Option (Text × ℕ)} {inline after read : Text → List Child}
  {text rest body group gap plain a b : Text} {white : Char → Bool} {c : Char}

/-! ## Digests -/

/-- White space, an `@` and twelve digits. -/
def IsGroup (white : Char → Bool) (group : Text) : Prop :=
  ∃ ws hex, group = ws ++ '@' :: hex ∧ (∀ c ∈ ws, white c = true) ∧ hex.length = 12 ∧ ∀ c ∈ hex, isHex c = true

theorem takeWhile_append_of_neg {p : Char → Bool} (ha : ∀ c ∈ a, p c = true) (hb : ∀ c ∈ b.head?, p c = false) :
    (a ++ b).takeWhile p = a := by
  rw [List.takeWhile_append_of_pos ha]
  cases b with
  | nil => exact List.append_nil a
  | cons c b =>
    have hc : p c = false := hb c rfl
    rw [List.takeWhile_cons_of_neg (by simp [hc]), List.append_nil]

theorem dropWhile_append_of_neg {p : Char → Bool} (ha : ∀ c ∈ a, p c = true) (hb : ∀ c ∈ b.head?, p c = false) :
    (a ++ b).dropWhile p = b := by
  rw [List.dropWhile_append_of_pos ha]
  cases b with
  | nil => rfl
  | cons c b =>
    have hc : p c = false := hb c rfl
    rw [List.dropWhile_cons_of_neg (by simp [hc])]

/-- What a pattern for a digest matches. -/
theorem digestAfter_eq_some_iff (hat : white '@' = false) :
    digestAfter white text = some (group, rest) ↔ text = group ++ rest ∧ IsGroup white group := by
  constructor
  · intro h
    unfold digestAfter at h
    split at h
    · rename_i after hdrop
      split at h
      · rename_i hhex
        obtain ⟨rfl, rfl⟩ := Prod.mk.inj (Option.some.inj h)
        refine ⟨?_, _, _, rfl, fun c hc => List.mem_takeWhile_imp hc, hhex.1, List.all_eq_true.1 hhex.2⟩
        rw [List.append_assoc, List.cons_append, List.take_append_drop, ← hdrop, List.takeWhile_append_dropWhile]
      · cases h
    · cases h
  · rintro ⟨rfl, ws, hex, rfl, hws, hlen, hhex⟩
    have hstop : ∀ c ∈ ('@' :: (hex ++ rest)).head?, white c = false := fun c hc => Option.some.inj hc ▸ hat
    have htext : ws ++ '@' :: hex ++ rest = ws ++ '@' :: (hex ++ rest) := by simp
    have htake : (hex ++ rest).take 12 = hex := by rw [← hlen, List.take_left]
    have hdrop : (hex ++ rest).drop 12 = rest := by rw [← hlen, List.drop_left]
    unfold digestAfter
    rw [htext, dropWhile_append_of_neg hws hstop]
    simp only [htake, hdrop]
    rw [if_pos ⟨hlen, List.all_eq_true.2 hhex⟩, takeWhile_append_of_neg hws hstop]

theorem isBlank_isSpace (h : isBlank c = true) : Text.isSpace c = true := by
  unfold isBlank at h
  rw [Bool.or_eq_true, beq_iff_eq, beq_iff_eq] at h
  rcases h with rfl | rfl <;> decide

theorem IsGroup.space (h : IsGroup isBlank group) : IsGroup Text.isSpace group := by
  obtain ⟨ws, hex, rfl, hws, hrest⟩ := h
  exact ⟨ws, hex, rfl, fun c hc => isBlank_isSpace (hws c hc), hrest⟩

theorem isHex_not_special (h : isHex c = true) : c ∉ SPECIAL ∧ c ∉ GAP ∧ c ≠ '\n' ∧ Text.isSpace c = false ∧ shown c = c := by
  have hcode : 48 ≤ c.toNat ∧ c.toNat ≤ 57 ∨ 97 ≤ c.toNat ∧ c.toNat ≤ 102 := by
    unfold isHex at h
    rw [Bool.or_eq_true, Bool.and_eq_true, Bool.and_eq_true, decide_eq_true_iff, decide_eq_true_iff, decide_eq_true_iff,
      decide_eq_true_iff] at h
    exact h
  have hne : ∀ d : Char, (d.toNat < 48 ∨ (57 < d.toNat ∧ d.toNat < 97) ∨ 102 < d.toNat) → c ≠ d := by
    rintro d hd rfl
    omega
  refine ⟨?_, ?_, hne _ (by decide), ?_, ?_⟩
  · simp only [SPECIAL, List.mem_cons, List.not_mem_nil, or_false, not_or]
    refine ⟨?_, ?_, ?_, ?_, ?_, ?_, ?_, ?_, ?_, ?_, ?_⟩ <;> exact hne _ (by decide)
  · simp only [GAP, List.mem_cons, List.not_mem_nil, or_false, not_or]
    refine ⟨?_, ?_, ?_⟩ <;> exact hne _ (by decide)
  · unfold Text.isSpace
    simp only [Bool.or_eq_false_iff, Bool.and_eq_false_iff, decide_eq_false_iff_not, beq_eq_false_iff_ne]
    refine ⟨⟨⟨⟨⟨⟨⟨⟨⟨⟨?_, ?_⟩, ?_⟩, ?_⟩, ?_⟩, ?_⟩, ?_⟩, ?_⟩, ?_⟩, ?_⟩, ?_⟩ <;> omega
  · exact if_neg (hne _ (by decide))

theorem IsGroup.ne_nil (h : IsGroup white group) : group ≠ [] := by
  obtain ⟨ws, hex, rfl, -⟩ := h
  simp

/-- The digest without the white space before it. -/
theorem IsGroup.strip (h : IsGroup Text.isSpace group) :
    ∃ hex, Text.strip group = '@' :: hex ∧ hex.length = 12 ∧ ∀ c ∈ hex, isHex c = true := by
  obtain ⟨ws, hex, rfl, hws, hlen, hhex⟩ := h
  refine ⟨hex, ?_, hlen, hhex⟩
  have hne : hex ≠ [] := fun hnil => by rw [hnil] at hlen; cases hlen
  have hdrop : (ws ++ '@' :: hex).dropWhile Text.isSpace = '@' :: hex :=
    dropWhile_append_of_neg hws fun c hc => by rw [← Option.some.inj hc]; decide
  have hword := Text.rstrip_append_word hne (fun c hc => (isHex_not_special (hhex c hc)).2.2.2.1) ['@'] []
  unfold Text.strip
  rw [hdrop]
  simpa [Text.rstrip] using hword

/-! ## The patterns -/

theorem mem_GAP (h : GAP.contains c = true) : c ∈ GAP := List.contains_iff_mem.1 h

/-- What a match of the pattern is. -/
structure Match (text body group rest gap : Text) : Prop where
  parts : text = gap ++ '\x60' :: (body ++ '\x60' :: (group ++ rest))
  gaps : ∀ c ∈ gap, c ∈ GAP
  inside : ∀ c ∈ body, inSpan c = true
  nonempty : body ≠ []
  first : body.head? ≠ some ' '
  single : (group ++ rest).head? ≠ some '\x60'
  digest : group = [] ∨ IsGroup isBlank group

theorem spanEnd_spec {body' : Text} (h : spanEnd body' text = (body, group, rest)) :
    body' = body ∧ text = group ++ rest ∧ (group = [] ∨ IsGroup isBlank group) := by
  unfold spanEnd at h
  split at h
  · rename_i hdigest
    obtain ⟨hbody, h⟩ := Prod.mk.inj h
    obtain ⟨rfl, rfl⟩ := Prod.mk.inj h
    obtain ⟨htext, hgroup⟩ := (digestAfter_eq_some_iff (by decide)).1 hdigest
    exact ⟨hbody, htext, .inr hgroup⟩
  · obtain ⟨hbody, h⟩ := Prod.mk.inj h
    obtain ⟨rfl, rfl⟩ := Prod.mk.inj h
    exact ⟨hbody, rfl, .inl rfl⟩

theorem plain_span_spec (h : _PLAIN_SPAN text = some (body, group, rest)) : ∃ gap, Match text body group rest gap := by
  unfold _PLAIN_SPAN at h
  split at h
  · rename_i inner hopen
    split at h
    · rename_i end_ hclose
      split at h
      · rename_i hcond
        obtain ⟨rfl, rfl, hgroup⟩ := spanEnd_spec (Option.some.inj h)
        refine ⟨text.takeWhile GAP.contains, ?_, fun c hc => mem_GAP (List.mem_takeWhile_imp hc), fun c hc =>
          List.mem_takeWhile_imp hc, hcond.1, hcond.2.1, hcond.2.2.2, hgroup⟩
        rw [← hclose, List.takeWhile_append_dropWhile, ← hopen, List.takeWhile_append_dropWhile]
      · cases h
    · cases h
  · cases h

/-- What stands after the last match. -/
theorem prose_spec (h : _PROSE_OR_END text = true) : ∃ gap, (∀ c ∈ gap, c ∈ GAP) ∧
    (text = gap ∨ text = gap ++ ['\n'] ∨ ∃ c more, text = gap ++ c :: more ∧ c ∉ NOT_PROSE) := by
  refine ⟨text.takeWhile GAP.contains, fun c hc => mem_GAP (List.mem_takeWhile_imp hc), ?_⟩
  have htext : text.takeWhile GAP.contains ++ text.dropWhile GAP.contains = text := List.takeWhile_append_dropWhile
  unfold _PROSE_OR_END at h
  split at h
  · rename_i hnil
    rw [hnil, List.append_nil] at htext
    exact .inl htext.symm
  · rename_i hline
    rw [hline] at htext
    exact .inr (.inl htext.symm)
  · rename_i c more _ hmore
    rw [hmore] at htext
    refine .inr (.inr ⟨c, more, htext.symm, fun hc => ?_⟩)
    rw [Bool.not_eq_true'] at h
    exact Bool.false_ne_true (h.symm.trans (List.contains_iff_mem.2 hc))

/-! ## Line ends and plain text -/

theorem normalize_cons (hc : c ≠ '\r') (text : Text) : _normalize (c :: text) = c :: _normalize text := by
  unfold _normalize
  rw [Gates.universalNewlines.eq_3]
  · exact fun _ h _ => hc h
  · exact hc

theorem normalize_nil : _normalize [] = [] := by
  unfold _normalize
  rw [Gates.universalNewlines]

theorem normalize_cr (h : text.head? ≠ some '\n') : _normalize ('\r' :: text) = '\n' :: _normalize text := by
  unfold _normalize
  rw [Gates.universalNewlines.eq_2]
  rintro rest rfl
  exact h rfl

theorem normalize_crlf (text : Text) : _normalize ('\r' :: '\n' :: text) = '\n' :: _normalize text := by
  unfold _normalize
  rw [Gates.universalNewlines.eq_1]

theorem normalize_append (ha : ∀ c ∈ a, c ≠ '\r') (b : Text) : _normalize (a ++ b) = a ++ _normalize b := by
  induction a with
  | nil => rfl
  | cons c a ih =>
    rw [List.cons_append, normalize_cons (ha c List.mem_cons_self), ih fun d hd => ha d (List.mem_cons_of_mem c hd)]
    rfl

/-- A character that ends no line keeps what stands before it apart from what follows. -/
theorem normalize_append_cons (hc : c ≠ '\r') (hc' : c ≠ '\n') (a b : Text) :
    _normalize (a ++ c :: b) = _normalize a ++ c :: _normalize b := by
  induction hn : a.length using Nat.strong_induction_on generalizing a with
  | _ n ih =>
    cases a with
    | nil => exact normalize_cons hc b
    | cons d a =>
      rw [List.length_cons] at hn
      by_cases hd : d = '\r'
      · subst hd
        cases a with
        | nil =>
          have hhead : (c :: b).head? ≠ some '\n' := fun h => hc' (Option.some.inj h)
          rw [List.cons_append, List.nil_append, normalize_cr hhead, normalize_cons hc]
          rfl
        | cons e a =>
          rw [List.length_cons] at hn
          by_cases he : e = '\n'
          · subst he
            rw [List.cons_append, List.cons_append, normalize_crlf, normalize_crlf, ih a.length (by omega) a rfl]
            rfl
          · have hhead : ∀ tail : Text, (e :: tail).head? ≠ some '\n' := fun tail h => he (Option.some.inj h)
            rw [List.cons_append, List.cons_append, normalize_cr (hhead _), normalize_cr (hhead _), ← List.cons_append,
              ih (e :: a).length (by rw [List.length_cons]; omega) (e :: a) rfl]
            rfl
      · rw [List.cons_append, normalize_cons hd, normalize_cons hd, ih a.length (by omega) a rfl]
        rfl

theorem not_mem_normalize (text : Text) : '\r' ∉ _normalize text := by
  unfold _normalize
  fun_induction Gates.universalNewlines text with
  | case1 cs ih => exact List.not_mem_cons_of_ne_of_not_mem (by decide) ih
  | case2 cs _ ih => exact List.not_mem_cons_of_ne_of_not_mem (by decide) ih
  | case3 c cs _ hc ih => exact List.not_mem_cons_of_ne_of_not_mem (fun h => hc h.symm) ih
  | case4 => exact List.not_mem_nil

theorem head?_normalize_ne (h : text.head? ≠ some '\x60') : (_normalize text).head? ≠ some '\x60' := by
  unfold _normalize
  fun_cases Gates.universalNewlines text with
  | case1 cs => exact fun h => absurd (Option.some.inj h) (by decide)
  | case2 cs => exact fun h => absurd (Option.some.inj h) (by decide)
  | case3 c cs => exact h
  | case4 => exact fun h => (nomatch h)

variable (reference) in
/-- Plain text is read as it stands. -/
theorem readText_append (hplain : ∀ c ∈ plain, c ∉ SPECIAL) (text : Text) :
    readText reference (plain ++ text) = (plain.map shown ++ (readText reference text).1, (readText reference text).2) := by
  induction plain with
  | nil => rfl
  | cons c plain ih =>
    have hrest : readFrom reference 0 (plain ++ text) = _ := ih fun d hd => hplain d (List.mem_cons_of_mem c hd)
    show readFrom reference 0 (c :: (plain ++ text)) = _
    rw [readFrom, if_pos (hplain c List.mem_cons_self), hrest]
    rfl

theorem mem_GAP_not_special (h : c ∈ GAP) : c ∉ SPECIAL ∧ c ≠ '@' ∧ c ≠ '\r' ∧ shown c = c := by
  simp only [GAP, List.mem_cons, List.not_mem_nil, or_false] at h
  rcases h with rfl | rfl | rfl <;> decide

theorem isBlank_mem_GAP (h : isBlank c = true) : c ∈ GAP := by
  unfold isBlank at h
  rw [Bool.or_eq_true, beq_iff_eq, beq_iff_eq] at h
  rcases h with rfl | rfl <;> decide

/-- What a match of the pattern has outside its span is plain text. -/
theorem group_plain (hgroup : group = [] ∨ IsGroup isBlank group) (hgap : ∀ c ∈ gap, c ∈ GAP) :
    ∀ c ∈ group ++ gap, c ∉ SPECIAL ∧ c ≠ '\r' ∧ shown c = c := by
  intro c hc
  rcases List.mem_append.1 hc with hc | hc
  · rcases hgroup with rfl | ⟨ws, hex, rfl, hws, -, hhex⟩
    · cases hc
    rcases List.mem_append.1 hc with hc | hc
    · have hspec := mem_GAP_not_special (isBlank_mem_GAP (hws c hc))
      exact ⟨hspec.1, hspec.2.2⟩
    · rcases List.mem_cons.1 hc with rfl | hc
      · decide
      · have hspec := isHex_not_special (hhex c hc)
        refine ⟨hspec.1, fun hr => ?_, hspec.2.2.2.2⟩
        rw [hr] at hspec
        exact absurd hspec.1 (by decide)
  · have hspec := mem_GAP_not_special (hgap c hc)
    exact ⟨hspec.1, hspec.2.2⟩

theorem map_shown (h : ∀ c ∈ plain, shown c = c) : plain.map shown = plain :=
  (List.map_congr_left h).trans (List.map_id _)

/-! ## The token reader -/

theorem stripOf_eq_nil_iff (chars text : Text) : Refs.stripOf chars text = [] ↔ ∀ c ∈ text, c ∈ chars := by
  unfold Refs.stripOf
  rw [List.reverse_eq_nil_iff, List.dropWhile_eq_nil_iff]
  simp only [List.mem_reverse, List.contains_iff_mem]
  constructor
  · intro h
    by_contra hno
    push Not at hno
    obtain ⟨c, hc, hout⟩ := hno
    have hmem : c ∈ text.dropWhile (List.contains chars) := by
      have hsplit : text.takeWhile (List.contains chars) ++ text.dropWhile (List.contains chars) = text := List.takeWhile_append_dropWhile
      rcases List.mem_append.1 (hsplit ▸ hc) with htake | hdrop
      · exact absurd (List.contains_iff_mem.1 (List.mem_takeWhile_imp htake)) hout
      · exact hdrop
    exact hout (h c hmem)
  · exact fun h c hc => h c ((List.dropWhile_sublist _).subset hc)

theorem attached_none {spans : List Text} (h : _TRAILING_DIGEST text = none) : attached spans text = (spans, text) := by
  unfold attached
  rw [h]
  split
  · rename_i heq
    cases heq
  · rfl

theorem attached_group (hgroup : IsGroup Text.isSpace group) (b rest : Text) :
    attached [b] (group ++ rest) = ([b ++ Text.strip group], rest) := by
  have hdigest : _TRAILING_DIGEST (group ++ rest) = some (group, rest) :=
    (digestAfter_eq_some_iff (by decide)).2 ⟨rfl, hgroup⟩
  unfold attached
  rw [hdigest]
  rfl

theorem not_digest_of_not_mem (h : '@' ∉ text) : _TRAILING_DIGEST text = none := by
  rw [Option.eq_none_iff_forall_ne_some]
  rintro ⟨group, rest⟩ hsome
  obtain ⟨rfl, ws, hex, rfl, -⟩ := (digestAfter_eq_some_iff (by decide)).1 hsome
  exact h (List.mem_append_left _ (List.mem_append_right _ List.mem_cons_self))

theorem spansOf_text (spans : List Text) (content : Text) (children : List Child) :
    spansOf spans (.text content :: children) = if ∀ c ∈ (attached spans content).2, c ∈ GAP then
      spansOf (attached spans content).1 children else (attached spans content).1 := by
  rw [spansOf]
  simp only [stripOf_eq_nil_iff]

/-- The spans before the last one are settled. -/
theorem spansOf_append (done : List Text) (b : Text) (children : List Child) :
    spansOf (done ++ [b]) children = done ++ spansOf [b] children := by
  induction children generalizing done b with
  | nil => rfl
  | cons child children ih =>
    cases child with
    | code_inline content =>
      rw [spansOf, ih, spansOf, ih [b], List.append_assoc]
    | text content =>
      have hattached : attached (done ++ [b]) content = (done ++ (attached [b] content).1, (attached [b] content).2) := by
        unfold attached
        rw [List.getLast?_concat, List.getLast?_singleton, List.dropLast_concat]
        cases _TRAILING_DIGEST content <;> rfl
      have hsingle : ∃ b', (attached [b] content).1 = [b'] := by
        unfold attached
        rw [List.getLast?_singleton]
        cases _TRAILING_DIGEST content <;> exact ⟨_, rfl⟩
      obtain ⟨b', hb'⟩ := hsingle
      rw [spansOf_text, spansOf_text, hattached, hb']
      split
      · exact ih done b'
      · rfl
    | softbreak => exact ih done b
    | hardbreak => exact ih done b
    | other _ => rfl

/-- Only digests are put after a span. -/
theorem spansOf_head (b : Text) (children : List Child) :
    ∃ digests more, spansOf [b] children = (b ++ digests) :: more ∧ ∀ c ∈ digests, c = '@' ∨ isHex c = true := by
  induction children generalizing b with
  | nil => exact ⟨[], [], by rw [spansOf, List.append_nil], fun c hc => (List.not_mem_nil hc).elim⟩
  | cons child children ih =>
    cases child with
    | code_inline content =>
      refine ⟨[], spansOf [content] children, ?_, fun c hc => (List.not_mem_nil hc).elim⟩
      rw [spansOf, spansOf_append, List.append_nil]
      rfl
    | text content =>
      rw [spansOf_text]
      cases hdigest : _TRAILING_DIGEST content with
      | none =>
        rw [attached_none hdigest]
        split
        · exact ih b
        · exact ⟨[], [], by rw [List.append_nil], fun c hc => (List.not_mem_nil hc).elim⟩
      | some found =>
        obtain ⟨hcontent, hgroup⟩ := (digestAfter_eq_some_iff (by decide)).1 (hdigest : _ = some (found.1, found.2))
        obtain ⟨hex, hstrip, -, hhex⟩ := hgroup.strip
        have hmade : ∀ c ∈ Text.strip found.1, c = '@' ∨ isHex c = true := by
          rw [hstrip]
          exact fun c hc => (List.mem_cons.1 hc).imp_right (hhex c)
        rw [hcontent, attached_group hgroup]
        split
        · obtain ⟨digests, more, heq, hdigests⟩ := ih (b ++ Text.strip found.1)
          refine ⟨Text.strip found.1 ++ digests, more, by rw [heq, List.append_assoc], fun c hc => ?_⟩
          exact (List.mem_append.1 hc).elim (hmade c) (hdigests c)
        · exact ⟨Text.strip found.1, [], rfl, hmade⟩
    | softbreak => exact ih b
    | hardbreak => exact ih b
    | other _ => exact ⟨[], [], by rw [spansOf, List.append_nil], fun c hc => (List.not_mem_nil hc).elim⟩

/-- Between two spans the token reader finds what the pattern finds. -/
theorem spansOf_gap (hgroup : group = [] ∨ IsGroup isBlank group) (hgap : ∀ c ∈ gap, c ∈ GAP) (b : Text)
    (children : List Child) : spansOf [b] (textOf (group ++ gap) ++ children) = spansOf [b ++ Text.strip group] children := by
  rcases hgroup with rfl | hgroup
  · have hnone : _TRAILING_DIGEST gap = none := not_digest_of_not_mem fun hat => (mem_GAP_not_special (hgap _ hat)).2.1 rfl
    have hstrip : b ++ Text.strip [] = b := List.append_nil b
    rw [List.nil_append, hstrip]
    unfold textOf
    split
    · rfl
    · rw [List.singleton_append, spansOf_text, attached_none hnone, if_pos hgap]
  · have hne : group ++ gap ≠ [] := fun hnil => hgroup.ne_nil (List.append_eq_nil_iff.1 hnil).1
    rw [textOf, if_neg hne, List.singleton_append, spansOf_text, attached_group hgroup.space, if_pos hgap]

theorem spansOf_gap_nil (hgap : ∀ c ∈ gap, c ∈ GAP) (children : List Child) :
    spansOf [] (textOf gap ++ children) = spansOf [] children := by
  have hattached : attached [] gap = ([], gap) := rfl
  unfold textOf
  split
  · rfl
  · rw [List.singleton_append, spansOf_text, hattached, if_pos hgap]

theorem spansOf_breaks {breaks : List Child} (h : ∀ b ∈ breaks, b = .softbreak ∨ b = .hardbreak) (spans : List Text) :
    spansOf spans breaks = spans := by
  induction breaks with
  | nil => exact spansOf.eq_1 spans
  | cons b breaks ih =>
    have hrest := ih fun d hd => h d (List.mem_cons_of_mem b hd)
    rcases h b List.mem_cons_self with rfl | rfl <;> exact hrest

/-! ## What the token reader sees of a digest -/

theorem digest_none_iff : _TRAILING_DIGEST text = none ↔ ∀ group, IsGroup Text.isSpace group → ¬ group <+: text := by
  rw [Option.eq_none_iff_forall_ne_some]
  constructor
  · rintro h group hgroup ⟨rest, rfl⟩
    exact h (group, rest) ((digestAfter_eq_some_iff (by decide)).2 ⟨rfl, hgroup⟩)
  · rintro h ⟨group, rest⟩ hsome
    obtain ⟨rfl, hgroup⟩ := (digestAfter_eq_some_iff (by decide)).1 hsome
    exact h group hgroup (List.prefix_append ..)

/-- A prefix of `a ++ b` that cannot reach into `b` is one of `a`. -/
theorem prefix_of_stop (h : group <+: a ++ b) (hstop : ∀ c more, group = a ++ c :: more → b.head? ≠ some c) : group <+: a := by
  rcases List.prefix_or_prefix_of_prefix h (List.prefix_append a b) with hgroup | ⟨more, hmore⟩
  · exact hgroup
  · cases more with
    | nil => exact ⟨[], by rw [List.append_nil, ← hmore, List.append_nil]⟩
    | cons c more =>
      obtain ⟨rest, hrest⟩ := h
      rw [← hmore, List.append_assoc, List.append_right_inj] at hrest
      exact absurd (hrest ▸ rfl) (hstop c more hmore.symm)

theorem IsGroup.mem (h : IsGroup Text.isSpace group) (hc : c ∈ group) : Text.isSpace c = true ∨ c = '@' ∨ isHex c = true := by
  obtain ⟨ws, hex, rfl, hws, -, hhex⟩ := h
  rcases List.mem_append.1 hc with hc | hc
  · exact .inl (hws c hc)
  · exact .inr ((List.mem_cons.1 hc).imp_right (hhex c))

theorem IsGroup.ends (h : IsGroup Text.isSpace group) : ∃ d, group.getLast? = some d ∧ isHex d = true := by
  obtain ⟨ws, hex, rfl, -, hlen, hhex⟩ := h
  obtain ⟨front, d, rfl⟩ := List.eq_nil_or_concat hex |>.resolve_left fun hnil => by rw [hnil] at hlen; cases hlen
  refine ⟨d, ?_, hhex d (by simp)⟩
  rw [List.concat_eq_append, ← List.cons_append, ← List.append_assoc, List.getLast?_concat]

theorem special_not_group (h : c ∈ SPECIAL) (hn : c ≠ '\n') (hr : c ≠ '\r') :
    ¬ (Text.isSpace c = true ∨ c = '@' ∨ isHex c = true) := by
  simp only [SPECIAL, List.mem_cons, List.not_mem_nil, or_false] at h
  rcases h with rfl | rfl | rfl | rfl | rfl | rfl | rfl | rfl | rfl | rfl | rfl <;> first | decide | exact absurd rfl hn | exact absurd rfl hr

/-- A digest does not end within the spaces that are taken away. -/
theorem IsGroup.prefix_trimmed {kept : Text} (hgroup : IsGroup Text.isSpace group) (h : Trimmed text kept)
    (hp : group <+: text) : group <+: kept := by
  obtain ⟨spaces, rfl, hall⟩ := h
  obtain ⟨rest, hrest⟩ := hp
  rcases List.append_eq_append_iff.1 hrest with ⟨x, hkept, -⟩ | ⟨x, hgroup', hx⟩
  · exact ⟨x, hkept.symm⟩
  · obtain ⟨d, hd, hhex⟩ := hgroup.ends
    rcases List.eq_nil_or_concat x with rfl | ⟨front, e, rfl⟩
    · rw [List.append_nil] at hgroup'
      exact hgroup' ▸ List.prefix_refl _
    · have hlast : d = e := by
        rw [hgroup', List.concat_eq_append, ← List.append_assoc, List.getLast?_concat] at hd
        exact (Option.some.inj hd).symm
      have hspace : e = ' ' := hall e (by rw [hx]; simp)
      rw [hlast, hspace] at hhex
      exact absurd hhex (by decide)

/-- **A text token opens with a digest exactly when what is read as text does.** -/
theorem IsGroup.prefix_holds {seen : Text × Text} {content : Text} (hgroup : IsGroup Text.isSpace group)
    (h : Holds seen content) : group <+: content ↔ group <+: seen.1 := by
  rcases h with ⟨-, htrimmed⟩ | ⟨-, more, rfl, hmore⟩
  · refine ⟨fun hp => ?_, hgroup.prefix_trimmed htrimmed⟩
    obtain ⟨spaces, hspaces, -⟩ := htrimmed
    exact hp.trans (hspaces ▸ List.prefix_append ..)
  · refine ⟨fun hp => prefix_of_stop hp fun c rest hc hhead => ?_, fun hp => hp.trans (List.prefix_append ..)⟩
    obtain ⟨hspecial, hn, hr⟩ := hmore c hhead
    exact special_not_group hspecial hn hr (hgroup.mem (hc ▸ List.mem_append_right _ List.mem_cons_self))

theorem digest_holds {seen : Text × Text} {content : Text} (h : Holds seen content) :
    _TRAILING_DIGEST content = none ↔ _TRAILING_DIGEST seen.1 = none := by
  rw [digest_none_iff, digest_none_iff]
  exact forall₂_congr fun group hgroup => not_congr (hgroup.prefix_holds h)

/-- A text token has what is read as text, but for spaces. -/
theorem Holds.mem {seen : Text × Text} {x : Text} (h : Holds seen (a ++ b)) (hseen : seen.1 = a ++ x) (hc : c ∈ x)
    (hspace : c ≠ ' ') : c ∈ b := by
  rcases h with ⟨-, spaces, hspaces, hall⟩ | ⟨-, more, hmore, -⟩
  · rw [hseen, List.append_assoc, List.append_right_inj] at hspaces
    rw [hspaces] at hc
    exact (List.mem_append.1 hc).elim id fun hin => absurd (hall c hin) hspace
  · rw [hseen, List.append_assoc, List.append_right_inj] at hmore
    rw [hmore]
    exact List.mem_append_left _ hc

/-! ## Agreement -/

/-- The parser keeps the body of a span. -/
def Faithful (body : Text) : Prop := '\r' ∉ body ∧ '\x00' ∉ body

/-- No digest comes up for a last span without one, when the text after it is read. -/
def NoLate (reference : Text → Option (Text × ℕ)) (found : List (Text × Text)) (rest : Text) : Prop :=
  ∀ o ∈ found.getLast?, o.2 = [] → _TRAILING_DIGEST (readText reference (_normalize rest)).1 = none

/-- **Nothing is hidden from the pattern**: the spans hold no carriage return and no U+0000, and
what the parser reads after a last span without a digest does not open with one. -/
structure Plainly (reference : Text → Option (Text × ℕ)) (text : Text) : Prop where
  bodies : ∀ o ∈ (openings text).1, Faithful o.1
  digest : NoLate reference (openings text).1 (openings text).2

theorem codeContent_faithful (hinside : ∀ c ∈ body, inSpan c = true) (hfirst : body.head? ≠ some ' ')
    (h : Faithful body) : codeContent (_normalize body) = body := by
  have hnormal : _normalize body = body := by
    have happend := normalize_append (fun c hc hr => h.1 (hr ▸ hc) : ∀ c ∈ body, c ≠ '\r') []
    simpa [_normalize, Gates.universalNewlines] using happend
  have hmap : (body.map fun c => if c = '\n' then ' ' else shown c) = body := by
    refine (List.map_congr_left fun c hc => ?_).trans (List.map_id body)
    have hline : c ≠ '\n' := fun hn => absurd (hinside c hc) (by rw [hn]; decide)
    have hnull : c ≠ '\x00' := fun hn => h.2 (hn ▸ hc)
    rw [if_neg hline, shown, if_neg hnull]
    rfl
  unfold codeContent
  rw [hnormal]
  simp only [hmap]
  rw [if_neg fun hcond => hfirst hcond.1]

theorem codeContent_shown (body : Text) : '\r' ∉ codeContent (_normalize body) ∧ '\x00' ∉ codeContent (_normalize body) := by
  have hmap : ∀ c ∈ (_normalize body).map (fun c => if c = '\n' then ' ' else shown c), c ≠ '\r' ∧ c ≠ '\x00' := by
    intro c hc
    obtain ⟨d, hd, rfl⟩ := List.mem_map.1 hc
    have hdr : d ≠ '\r' := fun h => not_mem_normalize body (h ▸ hd)
    split
    · decide
    · unfold shown
      split
      · decide
      · rename_i hnull
        exact ⟨hdr, hnull⟩
  have hsub : ∀ c ∈ codeContent (_normalize body), c ∈ (_normalize body).map fun c => if c = '\n' then ' ' else shown c := by
    intro c hc
    unfold codeContent at hc
    dsimp only at hc
    split at hc
    · exact List.mem_of_mem_tail (List.mem_of_mem_dropLast hc)
    · exact hc
  exact ⟨fun h => (hmap _ (hsub _ h)).1 rfl, fun h => (hmap _ (hsub _ h)).2 rfl⟩

/-- A span that the parser does not keep is not what the token reader ends up with. -/
theorem head_ne_of_not_faithful (h : ¬ Faithful body) (rest : Text) (children : List Child) (more : List Text) :
    spansOf [codeContent (_normalize body)] children ≠ (body ++ rest) :: more := by
  intro heq
  obtain ⟨digests, more', hhead, hdigests⟩ := spansOf_head (codeContent (_normalize body)) children
  have hsame : codeContent (_normalize body) ++ digests = body ++ rest := (List.cons.inj (hhead.symm.trans heq)).1
  obtain ⟨hr, hn⟩ := codeContent_shown body
  have hout : ∀ c, c ∉ codeContent (_normalize body) → ¬ (c = '@' ∨ isHex c = true) → c ∉ body := by
    intro c hc hdigest hbody
    have hmem : c ∈ codeContent (_normalize body) ++ digests := hsame ▸ List.mem_append_left _ hbody
    exact (List.mem_append.1 hmem).elim hc fun hin => hdigest (hdigests c hin)
  exact h ⟨hout _ hr (by decide), hout _ hn (by decide)⟩

theorem mem_normalize (h : c ∈ _normalize text) : c = '\n' ∨ c ∈ text := by
  unfold _normalize at h
  fun_induction Gates.universalNewlines text with
  | case1 cs ih =>
    rcases List.mem_cons.1 h with rfl | h
    · exact .inl rfl
    · exact (ih h).imp_right fun h => List.mem_cons_of_mem _ (List.mem_cons_of_mem _ h)
  | case2 cs _ ih =>
    rcases List.mem_cons.1 h with rfl | h
    · exact .inl rfl
    · exact (ih h).imp_right (List.mem_cons_of_mem _)
  | case3 d cs _ _ ih =>
    rcases List.mem_cons.1 h with rfl | h
    · exact .inr List.mem_cons_self
    · exact (ih h).imp_right (List.mem_cons_of_mem _)
  | case4 => exact .inr h

theorem normalize_eq_nil_iff : _normalize text = [] ↔ text = [] := by
  unfold _normalize
  fun_cases Gates.universalNewlines text <;> simp

variable (reference) in
/-- Prose is read as text, and its first character stays. -/
theorem prose_seen (hgap : ∀ c ∈ gap, c ∈ GAP) (hc : c ∉ NOT_PROSE) (more : Text) : ∃ rest last,
    readText reference (_normalize (gap ++ c :: more)) = (gap ++ shown c :: rest, last) ∧ shown c ∉ GAP := by
  have hr : c ≠ '\r' := fun h => hc (h ▸ by decide)
  have hspecial : c ∉ SPECIAL := fun h => hc (by revert h; simp only [SPECIAL, NOT_PROSE, List.mem_cons]; tauto)
  have hplain : ∀ d ∈ gap ++ [c], d ∉ SPECIAL := by
    intro d hd
    rcases List.mem_append.1 hd with hd | hd
    · exact (mem_GAP_not_special (hgap d hd)).1
    · exact List.mem_singleton.1 hd ▸ hspecial
  have hnormal : _normalize (gap ++ c :: more) = (gap ++ [c]) ++ _normalize more := by
    rw [normalize_append fun d hd => (mem_GAP_not_special (hgap d hd)).2.2.1, normalize_cons hr, List.append_assoc]
    rfl
  rw [hnormal, readText_append _ hplain, List.map_append, map_shown fun d hd => (mem_GAP_not_special (hgap d hd)).2.2.2]
  refine ⟨(readText reference (_normalize more)).1, (readText reference (_normalize more)).2, by simp, fun hin => ?_⟩
  unfold shown at hin
  split at hin
  · exact absurd hin (by decide)
  · exact hc (by revert hin; simp only [GAP, NOT_PROSE, List.mem_cons]; tauto)

/-- **What the token reader makes of the text after a span**: it adds the digest that the pattern
matched, and then the matches of the pattern, exactly when nothing there is hidden. -/
theorem spansOf_after (h : Reads reference after after) (text : Text) : ∀ b group : Text,
    (group = [] ∨ IsGroup isBlank group) → _PROSE_OR_END (openings text).2 = true →
    (spansOf [b] (after (_normalize (group ++ text))) =
        (b ++ Text.strip group) :: ((openings text).1.map fun found => found.1 ++ Text.strip found.2) ↔
      (∀ o ∈ (openings text).1, Faithful o.1) ∧ NoLate reference ((b, group) :: (openings text).1) (openings text).2) := by
  fun_induction openings text with
  | case1 text body group' rest hmatch ih =>
    intro b group hgroup hprose
    obtain ⟨gap, hm⟩ := plain_span_spec hmatch
    have hplain := group_plain hgroup hm.gaps
    have hnormal : _normalize (group ++ text) =
        (group ++ gap) ++ '\x60' :: (_normalize body ++ '\x60' :: _normalize (group' ++ rest)) := by
      rw [hm.parts, ← List.append_assoc, normalize_append fun c hc => (hplain c hc).2.1, normalize_cons (by decide),
        normalize_append_cons (by decide) (by decide)]
    have htick : '\x60' ∉ _normalize body := fun hin =>
      absurd (hm.inside _ ((mem_normalize hin).resolve_left (by decide))) (by decide)
    have hread := h.code (group ++ gap) (_normalize body) (_normalize (group' ++ rest)) (fun c hc => (hplain c hc).1)
      (fun hnil => hm.nonempty (normalize_eq_nil_iff.1 hnil)) htick (head?_normalize_ne hm.single)
    rw [hnormal, hread, map_shown fun c hc => (hplain c hc).2.2, spansOf_gap hgroup hm.gaps, spansOf, spansOf_append,
      List.map_cons, List.singleton_append, List.cons_inj_right]
    have hlate : NoLate reference ((b, group) :: (body, group') :: (openings rest).1) (openings rest).2 ↔
        NoLate reference ((body, group') :: (openings rest).1) (openings rest).2 := by
      unfold NoLate
      rw [List.getLast?_cons_cons]
    rw [hlate, List.forall_mem_cons]
    by_cases hfaithful : Faithful body
    · rw [codeContent_faithful hm.inside hm.first hfaithful, ih body group' hm.digest hprose]
      exact ⟨fun hall => ⟨⟨hfaithful, hall.1⟩, hall.2⟩, fun hall => ⟨hall.1.2, hall.2⟩⟩
    · exact iff_of_false (head_ne_of_not_faithful hfaithful _ _ _) fun hall => hfaithful hall.1.1
  | case2 text hmatch =>
    intro b group hgroup hprose
    have hlate : NoLate reference [(b, group)] text ↔
        (group = [] → _TRAILING_DIGEST (readText reference (_normalize text)).1 = none) := by
      unfold NoLate
      rw [List.getLast?_singleton]
      simp
    rw [hlate, List.map_nil]
    obtain ⟨gap, hgap, htext⟩ := prose_spec hprose
    have hplain := group_plain hgroup hgap
    have hgapplain : ∀ c ∈ gap, c ∉ SPECIAL := fun c hc => (mem_GAP_not_special (hgap c hc)).1
    have hgapshown : gap.map shown = gap := map_shown fun c hc => (mem_GAP_not_special (hgap c hc)).2.2.2
    have hgapnormal : ∀ tail, _normalize (gap ++ tail) = gap ++ _normalize tail :=
      normalize_append fun c hc => (mem_GAP_not_special (hgap c hc)).2.2.1
    have hnormal : ∀ tail, _normalize ((group ++ gap) ++ tail) = (group ++ gap) ++ _normalize tail :=
      normalize_append fun c hc => (hplain c hc).2.1
    have hblank : _TRAILING_DIGEST gap = none := not_digest_of_not_mem fun hat => (mem_GAP_not_special (hgap _ hat)).2.1 rfl
    rcases htext with rfl | rfl | ⟨c, more, rfl, hc⟩
    · -- the text ends
      have hnormal' := hnormal []
      have hgapnormal' := hgapnormal []
      have hseen := readText_append reference hgapplain []
      rw [List.append_nil, normalize_nil, List.append_nil] at hnormal' hgapnormal'
      rw [List.append_nil, hgapshown] at hseen
      have hread := h.last (group ++ text) fun c hc => (hplain c hc).1
      have hspans := spansOf_gap hgroup hgap b []
      rw [map_shown fun c hc => (hplain c hc).2.2] at hread
      rw [List.append_nil] at hspans
      refine iff_of_true ?_ ⟨fun o ho => (List.not_mem_nil ho).elim, fun _ => ?_⟩
      · rw [hnormal', hread, hspans]
        rfl
      · rw [hgapnormal', hseen, show (readText reference []).1 = [] from rfl, List.append_nil]
        exact hblank
    · -- the line ends, and the text with it
      have hline : _normalize ['\n'] = ['\n'] := by rw [normalize_cons (by decide), normalize_nil]
      obtain ⟨kept, breaks, htrimmed, hbreaks, hread⟩ := h.line (group ++ gap) fun c hc => (hplain c hc).1
      rw [map_shown fun c hc => (hplain c hc).2.2] at htrimmed
      have hprefix : group <+: kept := by
        rcases hgroup with rfl | hgroup
        · exact List.nil_prefix
        · exact hgroup.space.prefix_trimmed htrimmed (List.prefix_append ..)
      obtain ⟨left, rfl⟩ := hprefix
      obtain ⟨spaces, hspaces, -⟩ := htrimmed
      rw [List.append_assoc, List.append_right_inj] at hspaces
      have hleft : ∀ c ∈ left, c ∈ GAP := fun c hc => hgap c (hspaces ▸ List.mem_append_left _ hc)
      refine iff_of_true ?_ ⟨fun o ho => (List.not_mem_nil ho).elim, fun _ => ?_⟩
      · rw [← List.append_assoc, hnormal, hline, hread, spansOf_gap hgroup hleft, spansOf_breaks hbreaks]
      · rw [hgapnormal, hline, readText_append _ hgapplain, hgapshown, show (readText reference ['\n']).1 = [] from rfl,
          List.append_nil]
        exact hblank
    · -- prose follows
      obtain ⟨rest, last, hseen, hshown⟩ := prose_seen reference hgap hc more
      have hgroupplain : ∀ d ∈ group, d ∉ SPECIAL ∧ d ≠ '\r' ∧ shown d = d := fun d hd => hplain d (List.mem_append_left _ hd)
      have hnormal' : _normalize (group ++ (gap ++ c :: more)) = group ++ _normalize (gap ++ c :: more) :=
        normalize_append (fun d hd => (hgroupplain d hd).2.1) _
      have hread' : readText reference (group ++ _normalize (gap ++ c :: more)) = (group ++ (gap ++ shown c :: rest), last) := by
        rw [readText_append _ fun d hd => (hgroupplain d hd).1, map_shown fun d hd => (hgroupplain d hd).2.2, hseen]
      have hspace : shown c ≠ ' ' := fun hs => hshown (by rw [hs]; decide)
      have hmem : shown c ∈ gap ++ shown c :: rest := List.mem_append_right _ List.mem_cons_self
      obtain ⟨content, children, htoken, hholds⟩ := h.text (group ++ _normalize (gap ++ c :: more))
        ⟨shown c, by rw [hread']; exact List.mem_append_right _ hmem, hspace⟩
      have hprefix : group <+: content := by
        rcases hgroup with rfl | hgroup
        · exact List.nil_prefix
        · exact (hgroup.space.prefix_holds hholds).2 (by rw [hread']; exact List.prefix_append ..)
      obtain ⟨left, rfl⟩ := hprefix
      have hprosy : ¬ ∀ d ∈ left, d ∈ GAP := fun hall =>
        hshown (hall _ (hholds.mem (x := gap ++ shown c :: rest) (by rw [hread']) hmem hspace))
      rw [hnormal', htoken, spansOf_text]
      rcases hgroup with rfl | hgroup
      · rw [List.nil_append] at hholds ⊢
        rw [List.nil_append] at hholds
        have hdigest := digest_holds hholds
        cases hleft : _TRAILING_DIGEST left with
        | none =>
          rw [attached_none hleft, if_neg hprosy]
          exact iff_of_true (by rw [show Text.strip [] = [] from rfl, List.append_nil])
            ⟨fun o ho => (List.not_mem_nil ho).elim, fun _ => hdigest.1 hleft⟩
        | some found =>
          obtain ⟨rfl, hfound⟩ := (digestAfter_eq_some_iff (by decide)).1 (hleft : _ = some (found.1, found.2))
          obtain ⟨hex, hstrip, -⟩ := hfound.strip
          refine iff_of_false (fun heq => ?_) fun hall => ?_
          · -- the digest that the parser sees is put after the span
            obtain ⟨digests, more', hhead, -⟩ := spansOf_head (b ++ Text.strip found.1) children
            rw [attached_group hfound, hhead] at heq
            have hspan : ∃ digests, b ++ Text.strip found.1 ++ digests = b ++ Text.strip [] := by
              split at heq
              · exact ⟨digests, (List.cons.inj heq).1⟩
              · exact ⟨[], by rw [List.append_nil]; exact (List.cons.inj heq).1⟩
            obtain ⟨digests, hspan⟩ := hspan
            rw [List.append_assoc, List.append_right_inj, hstrip] at hspan
            cases hspan
          · rw [hdigest.2 (hall.2 rfl)] at hleft
            cases hleft
      · rw [attached_group hgroup.space, if_neg hprosy]
        exact iff_of_true rfl ⟨fun o ho => (List.not_mem_nil ho).elim, fun hnil => absurd hnil hgroup.ne_nil⟩

theorem openings_none (h : _PLAIN_SPAN text = none) : openings text = ([], text) := by
  rw [openings]
  split
  · rename_i heq
    rw [h] at heq
    cases heq
  · rfl

theorem openings_some (h : _PLAIN_SPAN text = some (body, group, rest)) :
    openings text = ((body, group) :: (openings rest).1, (openings rest).2) := by
  rw [openings]
  split
  · rename_i heq
    obtain ⟨rfl, rfl, rfl⟩ := Prod.mk.inj (Option.some.inj (heq.symm.trans h)) |>.imp_right Prod.mk.inj
    rfl
  · rename_i heq
    rw [h] at heq
    cases heq

/-- A text that opens with prose has no spans for the token reader. -/
theorem spansOf_prose (h : Reads reference inline after) (hprose : _PROSE_OR_END text = true) :
    spansOf [] (inline (_normalize text)) = [] := by
  obtain ⟨gap, hgap, htext⟩ := prose_spec hprose
  have hgapplain : ∀ c ∈ gap, c ∉ SPECIAL := fun c hc => (mem_GAP_not_special (hgap c hc)).1
  have hgapshown : gap.map shown = gap := map_shown fun c hc => (mem_GAP_not_special (hgap c hc)).2.2.2
  have hgapnormal : ∀ tail, _normalize (gap ++ tail) = gap ++ _normalize tail :=
    normalize_append fun c hc => (mem_GAP_not_special (hgap c hc)).2.2.1
  rcases htext with rfl | rfl | ⟨c, more, rfl, hc⟩
  · have hnormal := hgapnormal []
    have hspans := spansOf_gap_nil hgap []
    rw [List.append_nil, normalize_nil, List.append_nil] at hnormal
    rw [List.append_nil] at hspans
    rw [hnormal, h.last text hgapplain, hgapshown, hspans, spansOf]
  · obtain ⟨kept, breaks, ⟨spaces, hspaces, -⟩, hbreaks, hread⟩ := h.line gap hgapplain
    rw [hgapshown] at hspaces
    have hkept : ∀ c ∈ kept, c ∈ GAP := fun c hc => hgap c (hspaces ▸ List.mem_append_left _ hc)
    rw [hgapnormal, normalize_cons (by decide), normalize_nil, hread, spansOf_gap_nil hkept, spansOf_breaks hbreaks]
  · obtain ⟨rest, last, hseen, hshown⟩ := prose_seen reference hgap hc more
    have hspace : shown c ≠ ' ' := fun hs => hshown (by rw [hs]; decide)
    have hmem : shown c ∈ gap ++ shown c :: rest := List.mem_append_right _ List.mem_cons_self
    obtain ⟨content, children, htoken, hholds⟩ := h.text (_normalize (gap ++ c :: more))
      ⟨shown c, by rw [hseen]; exact hmem, hspace⟩
    have hcontent : shown c ∈ content := hholds.mem (a := []) (x := gap ++ shown c :: rest) (by rw [hseen]; rfl) hmem hspace
    have hattached : attached [] content = ([], content) := rfl
    rw [htoken, spansOf_text, hattached, if_neg fun hall => hshown (hall _ hcontent)]

theorem parsed_eq_iff (h : CommonMark reference inline after) (hprose : _PROSE_OR_END (openings text).2 = true) :
    _parsed_leading_code_spans inline text = ((openings text).1.map fun found => found.1 ++ Text.strip found.2) ↔
      Plainly reference text := by
  have hiff : Plainly reference text ↔
      (∀ o ∈ (openings text).1, Faithful o.1) ∧ NoLate reference (openings text).1 (openings text).2 :=
    ⟨fun hp => ⟨hp.bodies, hp.digest⟩, fun hp => ⟨hp.1, hp.2⟩⟩
  rw [hiff]
  unfold _parsed_leading_code_spans _inline_children
  cases hmatch : _PLAIN_SPAN text with
  | none =>
    rw [openings_none hmatch] at hprose ⊢
    rw [spansOf_prose h.first hprose]
    exact iff_of_true rfl ⟨fun o ho => (List.not_mem_nil ho).elim, fun o ho => (nomatch ho)⟩
  | some found =>
    obtain ⟨body, group, rest⟩ := found
    obtain ⟨gap, hm⟩ := plain_span_spec hmatch
    have hgapplain : ∀ c ∈ gap, c ∉ SPECIAL := fun c hc => (mem_GAP_not_special (hm.gaps c hc)).1
    have hgapshown : gap.map shown = gap := map_shown fun c hc => (mem_GAP_not_special (hm.gaps c hc)).2.2.2
    have hnormal : _normalize text = gap ++ '\x60' :: (_normalize body ++ '\x60' :: _normalize (group ++ rest)) := by
      rw [hm.parts, normalize_append fun c hc => (mem_GAP_not_special (hm.gaps c hc)).2.2.1, normalize_cons (by decide),
        normalize_append_cons (by decide) (by decide)]
    have htick : '\x60' ∉ _normalize body := fun hin =>
      absurd (hm.inside _ ((mem_normalize hin).resolve_left (by decide))) (by decide)
    have hread := h.first.code gap (_normalize body) (_normalize (group ++ rest)) hgapplain
      (fun hnil => hm.nonempty (normalize_eq_nil_iff.1 hnil)) htick (head?_normalize_ne hm.single)
    rw [openings_some hmatch] at hprose ⊢
    rw [hnormal, hread, hgapshown, spansOf_gap_nil hm.gaps, spansOf, List.nil_append, List.map_cons, List.forall_mem_cons]
    by_cases hfaithful : Faithful body
    · rw [codeContent_faithful hm.inside hm.first hfaithful, spansOf_after h.next rest body group hm.digest hprose]
      exact ⟨fun hall => ⟨⟨hfaithful, hall.1⟩, hall.2⟩, fun hall => ⟨hall.1.2, hall.2⟩⟩
    · exact iff_of_false (head_ne_of_not_faithful hfaithful _ _ _) fun hall => hfaithful hall.1.1

/-- **The two readers of leading code spans agree exactly where nothing is hidden.** -/
theorem spans_agree_iff (h : CommonMark reference inline after) {text : Text} {spans : List Text}
    (hplain : _plain_leading_code_spans text = some spans) :
    spans = _parsed_leading_code_spans inline text ↔ Plainly reference text := by
  unfold _plain_leading_code_spans at hplain
  split at hplain
  · rename_i hprose
    obtain rfl := Option.some.inj hplain
    rw [eq_comm]
    exact parsed_eq_iff h hprose
  · cases hplain

/-! ## A parser -/

variable (reference) in
theorem length_readFrom (skip : ℕ) (text : Text) : (readFrom reference skip text).2.length ≤ text.length := by
  fun_induction readFrom reference skip text with
  | case1 => exact Nat.le_refl _
  | case2 skip c rest ih => exact Nat.le_succ_of_le ih
  | case3 c rest _ ih => exact Nat.le_succ_of_le ih
  | case4 c rest _ _ ih => exact Nat.le_succ_of_le ih
  | case5 rest _ _ decoded n _ ih => exact Nat.le_succ_of_le ih
  | case6 => exact Nat.le_refl _
  | case7 => exact Nat.le_refl _

/-- The tokens of a text of plain characters, escapes and code spans of one backtick, up to the
first thing that is none of these. -/
def simple (text : Text) : List Child :=
  match _h : (readText (fun _ => none) text).2 with
  | [] => textOf (readText (fun _ => none) text).1
  | '\x60' :: rest =>
    if rest.takeWhile (· ≠ '\x60') ≠ [] ∧ (rest.dropWhile (· ≠ '\x60')).tail.head? ≠ some '\x60' then
      textOf (readText (fun _ => none) text).1 ++ .code_inline (codeContent (rest.takeWhile (· ≠ '\x60'))) ::
        simple (rest.dropWhile (· ≠ '\x60')).tail
    else textOf (readText (fun _ => none) text).1 ++ [.other "text".toList]
  | '\n' :: _ => textOf (readText (fun _ => none) text).1 ++ [.softbreak]
  | _ => textOf (readText (fun _ => none) text).1 ++ [.other "text".toList]
termination_by text.length
decreasing_by
  have hle := length_readFrom (fun _ => none) 0 text
  have hdrop := (List.dropWhile_sublist (fun c : Char => decide (c ≠ '\x60')) (l := rest)).length_le
  unfold readText at _h
  rw [_h, List.length_cons] at hle
  rw [List.length_tail]
  omega

theorem readText_plain (hplain : ∀ c ∈ plain, c ∉ SPECIAL) : readText (fun _ => none) plain = (plain.map shown, []) := by
  have happend := readText_append (fun _ => none) hplain []
  rw [List.append_nil] at happend
  rw [happend, show readText (fun _ => none) [] = ([], []) from rfl, List.append_nil]

theorem simple_reads : Reads (fun _ => none) simple simple where
  code := by
    intro plain body rest hplain hbody htick hrest
    have hin : ∀ c ∈ body, decide (c ≠ '\x60') = true := fun c hc => decide_eq_true fun h => htick (h ▸ hc)
    have hout : ∀ c ∈ ('\x60' :: rest).head?, decide (c ≠ '\x60') = false := fun c hc => by rw [← Option.some.inj hc]; decide
    have htake : (body ++ '\x60' :: rest).takeWhile (· ≠ '\x60') = body := takeWhile_append_of_neg hin hout
    have hdrop : (body ++ '\x60' :: rest).dropWhile (· ≠ '\x60') = '\x60' :: rest := dropWhile_append_of_neg hin hout
    have hseen := readText_append (fun _ => none) hplain ('\x60' :: (body ++ '\x60' :: rest))
    rw [show readText (fun _ => none) ('\x60' :: (body ++ '\x60' :: rest)) = ([], '\x60' :: (body ++ '\x60' :: rest)) from rfl,
      List.append_nil] at hseen
    rw [simple]
    split
    · rename_i heq
      rw [hseen] at heq
      cases heq
    · rename_i inner heq
      rw [hseen] at heq
      obtain rfl := (List.cons.inj heq).2
      rw [hseen, htake, hdrop, List.tail_cons, if_pos ⟨hbody, hrest⟩]
    · rename_i heq
      rw [hseen] at heq
      cases heq
    · rename_i _ hno _
      rw [hseen] at hno
      exact absurd rfl (hno _)
  text := by
    intro text hseen
    obtain ⟨c, hc, hspace⟩ := hseen
    have hne : (readText (fun _ => none) text).1 ≠ [] := List.ne_nil_of_mem hc
    have htext : textOf (readText (fun _ => none) text).1 = [.text (readText (fun _ => none) text).1] := if_neg hne
    have hholds : Holds (readText (fun _ => none) text) (readText (fun _ => none) text).1 := by
      by_cases hline : (readText (fun _ => none) text).2.head? = some '\n'
      · exact .inl ⟨hline, [], (List.append_nil _).symm, fun c hc => (List.not_mem_nil hc).elim⟩
      · exact .inr ⟨hline, [], (List.append_nil _).symm, fun c hc => (nomatch hc)⟩
    rw [simple]
    split
    · exact ⟨_, [], htext, hholds⟩
    · split
      · exact ⟨_, _, by rw [htext]; rfl, hholds⟩
      · exact ⟨_, _, by rw [htext]; rfl, hholds⟩
    · exact ⟨_, _, by rw [htext]; rfl, hholds⟩
    · exact ⟨_, _, by rw [htext]; rfl, hholds⟩
  last := by
    intro plain hplain
    rw [simple]
    split
    · rw [readText_plain hplain]
    · rename_i heq
      rw [readText_plain hplain] at heq
      cases heq
    · rename_i heq
      rw [readText_plain hplain] at heq
      cases heq
    · rename_i hno _ _
      rw [readText_plain hplain] at hno
      exact absurd rfl hno
  line := by
    intro plain hplain
    have hseen := readText_append (fun _ => none) hplain ['\n']
    rw [show readText (fun _ => none) ['\n'] = ([], ['\n']) from rfl, List.append_nil] at hseen
    refine ⟨plain.map shown, [.softbreak], ⟨[], (List.append_nil _).symm, fun c hc => (List.not_mem_nil hc).elim⟩,
      fun b hb => .inl (List.mem_singleton.1 hb), ?_⟩
    rw [simple]
    split
    · rename_i heq
      rw [hseen] at heq
      cases heq
    · rename_i heq
      rw [hseen] at heq
      cases heq
    · rw [hseen]
    · rename_i _ _ hno
      rw [hseen] at hno
      exact absurd rfl (hno _)

/-- A citation with its digest reads the same, by this parser. -/
theorem spans_agree_cited : ["a.py@0123456789ab".toList] =
    _parsed_leading_code_spans simple "\x60a.py\x60 @0123456789ab".toList := by
  have hmatch : _PLAIN_SPAN "\x60a.py\x60 @0123456789ab".toList = some ("a.py".toList, " @0123456789ab".toList, []) := rfl
  have hopen : openings "\x60a.py\x60 @0123456789ab".toList = ([("a.py".toList, " @0123456789ab".toList)], []) := by
    rw [openings_some hmatch, openings_none rfl]
  have hplain : _plain_leading_code_spans "\x60a.py\x60 @0123456789ab".toList = some ["a.py@0123456789ab".toList] := by
    unfold _plain_leading_code_spans
    rw [hopen]
    rfl
  refine (spans_agree_iff ⟨simple_reads, simple_reads⟩ hplain).2 ⟨?_, ?_⟩
  · rw [hopen]
    exact List.forall_mem_singleton.2 (by unfold Faithful; decide)
  · rw [hopen]
    intro o ho hnil
    obtain rfl := Option.some.inj ho
    cases hnil

/-- **A digest after a no-break space** belongs to the span for the parser's reader, and not for
the pattern. -/
theorem late_digest :
    _plain_leading_code_spans "\x60a.py\x60\u00a0@0123456789ab".toList = some ["a.py".toList] ∧
      ∀ (reference : Text → Option (Text × ℕ)) (inline after : Text → List Child), CommonMark reference inline after →
        _parsed_leading_code_spans inline "\x60a.py\x60\u00a0@0123456789ab".toList ≠ ["a.py".toList] := by
  have hmatch : _PLAIN_SPAN "\x60a.py\x60\u00a0@0123456789ab".toList = some ("a.py".toList, [], "\u00a0@0123456789ab".toList) := rfl
  have hopen : openings "\x60a.py\x60\u00a0@0123456789ab".toList = ([("a.py".toList, [])], "\u00a0@0123456789ab".toList) := by
    rw [openings_some hmatch, openings_none rfl]
  refine ⟨by unfold _plain_leading_code_spans; rw [hopen]; rfl, fun reference inline after h heq => ?_⟩
  have hprose : _PROSE_OR_END (openings "\x60a.py\x60\u00a0@0123456789ab".toList).2 = true := by
    rw [hopen]
    rfl
  have hiff := parsed_eq_iff h hprose
  rw [hopen] at hiff
  have hlate := (hiff.1 heq).digest
  rw [hopen] at hlate
  have hnone := hlate _ rfl rfl
  cases hnone

end Stablemate.Spans
