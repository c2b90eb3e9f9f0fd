import Stablemate.Lib.Lists
import Stablemate.Model.Gates
import Stablemate.Proof.Text

/-!
# What a gate keeps, and which question is read back

* `slot_of`: where the status of a text stands, and that `set_status` writes only there.
* `statusOf_append`, `statusOf_applyAnswer`: a gate that is armed again waits, one that is
  answered does not; the rest of the text is kept (`Kept`).
* `newest_question`: the question that is appended is the one read back, as long as the
  line counts of the Markdown parser and of `str.splitlines()` agree.
-/

namespace Stablemate.Gates

open Text (isSpace isBreak isStray rstrip strip splitlines linesFrom endedLines)

/-! ## The status line -/

section Search

variable {text line rest before token after : Text} {b : Bool} {c : Char}

/-- The status at the front of a line: what it is made of. -/
theorem statusAt_eq_some (h : statusAt line = some (token, after)) :
    ∃ blanks, line = "STATUS:".toList ++ blanks ++ token ++ after ∧
      (∀ c ∈ blanks, c = ' ' ∨ c = '\t') ∧ token ≠ [] ∧ (∀ c ∈ token, isSpace c = false) ∧
      ∀ c, after.head? = some c → isSpace c = true := by
  unfold statusAt at h
  split at h
  · next hp =>
    obtain ⟨tail, rfl⟩ := hp
    rw [List.drop_left' (by rfl)] at h
    have hblanks := List.takeWhile_append_dropWhile (p := fun c => c == ' ' || c == '\t') (l := tail)
    generalize hrest : tail.dropWhile (fun c => c == ' ' || c == '\t') = rest at h hblanks
    have htoken := List.takeWhile_append_dropWhile (p := fun c => !isSpace c) (l := rest)
    dsimp only at h
    split at h
    · cases h
    · next hne =>
      obtain ⟨rfl, rfl⟩ := Prod.mk.inj (Option.some.inj h)
      have hdrop : rest.drop (rest.takeWhile fun c => !isSpace c).length =
          rest.dropWhile fun c => !isSpace c := by
        have := congrArg (List.drop (rest.takeWhile fun c => !isSpace c).length) htoken
        rw [List.drop_left] at this
        exact this.symm
      refine ⟨tail.takeWhile fun c => c == ' ' || c == '\t', ?_, ?_, hne, ?_, ?_⟩
      · rw [hdrop, List.append_assoc, htoken, List.append_assoc, hblanks]
      · intro c hc
        have := List.mem_takeWhile_imp hc
        simpa using this
      · intro c hc
        have := List.mem_takeWhile_imp hc
        simpa using this
      · intro c hc
        rw [hdrop] at hc
        have := List.head?_dropWhile_not (fun c => !isSpace c) rest
        rw [hc] at this
        simpa using this
  · cases h

theorem statusAt_of (hblanks : ∀ c ∈ rest, c = ' ' ∨ c = '\t') (hne : token ≠ [])
    (htoken : ∀ c ∈ token, isSpace c = false) (hafter : ∀ c, after.head? = some c → isSpace c = true) :
    statusAt ("STATUS:".toList ++ rest ++ token ++ after) = some (token, after) := by
  obtain ⟨d, token, rfl⟩ := List.exists_cons_of_ne_nil hne
  have hd : (d == ' ' || d == '\t') = false := by
    have := htoken d List.mem_cons_self
    by_contra hsp
    have hsp : d = ' ' ∨ d = '\t' := by
      simp only [Bool.not_eq_false, Bool.or_eq_true, beq_iff_eq] at hsp
      exact hsp
    rcases hsp with rfl | rfl
    · exact absurd this (by decide)
    · exact absurd this (by decide)
  have hdrop : (rest ++ (d :: token) ++ after).dropWhile (fun c => c == ' ' || c == '\t') =
      d :: token ++ after := by
    rw [List.append_assoc, List.dropWhile_append, List.dropWhile_eq_nil_iff.2 (by simpa using hblanks)]
    simp [hd]
  have htake : (d :: token ++ after).takeWhile (fun c => !isSpace c) = d :: token := by
    rw [List.takeWhile_append_of_pos (by simpa using htoken)]
    rcases after with _ | ⟨e, after⟩
    · simp
    · simp [hafter e rfl]
  unfold statusAt
  rw [if_pos ⟨rest ++ (d :: token) ++ after, by simp⟩, List.append_assoc, List.append_assoc,
    List.drop_left' (by rfl), ← List.append_assoc, hdrop]
  dsimp only
  rw [htake, if_neg (List.cons_ne_nil _ _), List.drop_left]

/-- A status does not reach over a newline. -/
theorem statusAt_append_none (h : statusAt line = none) : statusAt (line ++ '\n' :: rest) = none := by
  rcases hs : statusAt (line ++ '\n' :: rest) with _ | ⟨token, after⟩
  · rfl
  · obtain ⟨blanks, heq, hblanks, hne, htoken, hafter⟩ := statusAt_eq_some hs
    have hnl : '\n' ∉ "STATUS:".toList ++ blanks ++ token := by
      intro hmem
      simp only [List.mem_append] at hmem
      rcases hmem with (hmem | hmem) | hmem
      · exact absurd hmem (by decide)
      · exact absurd (hblanks _ hmem) (by decide)
      · exact absurd (htoken _ hmem) (by decide)
    have hcover : ∃ tail, line = "STATUS:".toList ++ blanks ++ token ++ tail ∧
        ∀ c, tail.head? = some c → isSpace c = true := by
      rcases List.append_eq_append_iff.1 heq with ⟨tail, hword, htail⟩ | ⟨tail, hline, htail⟩
      · rcases tail with _ | ⟨d, tail⟩
        · exact ⟨[], by simpa using hword.symm, by simp⟩
        · obtain ⟨rfl, -⟩ := List.cons.inj htail
          exact absurd (hword ▸ by simp) hnl
      · refine ⟨tail, hline, fun c hc => hafter c ?_⟩
        rcases tail with _ | ⟨d, tail⟩
        · simp at hc
        · simpa [htail] using hc
    obtain ⟨tail, rfl, htail⟩ := hcover
    rw [statusAt_of hblanks hne htoken htail] at h
    cases h

theorem statusAt_append_some (rest : Text) (h : statusAt line = some (token, after)) :
    statusAt (line ++ '\n' :: rest) = some (token, after ++ '\n' :: rest) := by
  obtain ⟨blanks, rfl, hblanks, hne, htoken, hafter⟩ := statusAt_eq_some h
  have hended : ∀ c, (after ++ '\n' :: rest).head? = some c → isSpace c = true := by
    intro c hc
    rcases after with _ | ⟨e, after⟩
    · obtain rfl : '\n' = c := by simpa using hc
      rfl
    · exact hafter c (by simpa using hc)
  have := statusAt_of hblanks hne htoken hended
  simpa using this

/-- The search goes on where no status starts. -/
theorem searchStatus_cons (h : b = true → statusAt (c :: text) = none) :
    searchStatus b (c :: text) =
      (searchStatus (c == '\n') text).map fun found => (c :: found.1, found.2) := by
  have hnone : (if b then statusAt (c :: text) else none) = none := by
    cases b
    · rfl
    · exact h rfl
  rw [searchStatus, hnone]

theorem searchStatus_here (h : statusAt (c :: text) = some (token, after)) :
    searchStatus true (c :: text) = some ([], token, after) := by
  rw [searchStatus, if_pos rfl, h]

theorem statusAt_of_searchStatus_none (h : searchStatus b (c :: text) = none) (hb : b = true) :
    statusAt (c :: text) = none := by
  subst hb
  rcases hs : statusAt (c :: text) with _ | ⟨token, after⟩
  · rfl
  · rw [searchStatus_here hs] at h
    cases h

/-- A text without a status can be put in front of a line. -/
theorem searchStatus_append_none (rest : Text) (h : searchStatus b text = none) :
    searchStatus b (text ++ '\n' :: rest) =
      (searchStatus true rest).map fun found => (text ++ '\n' :: found.1, found.2) := by
  induction text generalizing b with
  | nil =>
    rw [List.nil_append, searchStatus_cons fun _ => statusAt_append_none (show statusAt [] = none by decide)]
    rfl
  | cons c text ih =>
    have hat := statusAt_of_searchStatus_none h
    rw [searchStatus_cons hat] at h
    have hat' : b = true → statusAt (c :: (text ++ '\n' :: rest)) = none := fun hb =>
      statusAt_append_none (hat hb)
    rw [List.cons_append, searchStatus_cons hat', ih (by simpa using h), Option.map_map]
    rfl

/-- Lines after the status change nothing. -/
theorem searchStatus_append_some (rest : Text) (h : searchStatus b text = some (before, token, after)) :
    searchStatus b (text ++ '\n' :: rest) = some (before, token, after ++ '\n' :: rest) := by
  induction text generalizing b before with
  | nil => cases h
  | cons c text ih =>
    by_cases hb : b = true ∧ statusAt (c :: text) ≠ none
    · obtain ⟨rfl, hat⟩ := hb
      obtain ⟨⟨token', after'⟩, hat⟩ := Option.ne_none_iff_exists'.1 hat
      rw [searchStatus_here hat] at h
      obtain ⟨rfl, rfl, rfl⟩ : [] = before ∧ token' = token ∧ after' = after := by simpa using h
      exact searchStatus_here (statusAt_append_some rest hat)
    · have hat : b = true → statusAt (c :: text) = none := fun hb' => by
        by_contra hne
        exact hb ⟨hb', hne⟩
      rw [searchStatus_cons hat] at h
      obtain ⟨⟨before', token', after'⟩, hfound, heq⟩ := Option.map_eq_some_iff.1 h
      obtain ⟨rfl, rfl, rfl⟩ : c :: before' = before ∧ token' = token ∧ after' = after := by
        simpa using heq
      have hat' : b = true → statusAt (c :: (text ++ '\n' :: rest)) = none := fun hb =>
        statusAt_append_none (hat hb)
      rw [List.cons_append, searchStatus_cons hat', ih hfound]
      rfl

/-- **Where the search finds a status**: at the front or after a newline, with no status before. -/
theorem searchStatus_eq_some (h : searchStatus b text = some (before, token, after)) :
    (∃ blanks, text = before ++ "STATUS:".toList ++ blanks ++ token ++ after ∧
      (∀ c ∈ blanks, c = ' ' ∨ c = '\t') ∧ token ≠ [] ∧ (∀ c ∈ token, isSpace c = false)) ∧
    (∀ c, after.head? = some c → isSpace c = true) ∧
    ((before = [] ∧ b = true) ∨ ∃ line, before = line ++ ['\n'] ∧ searchStatus b line = none) := by
  induction text generalizing b before with
  | nil => cases h
  | cons c text ih =>
    by_cases hb : b = true ∧ statusAt (c :: text) ≠ none
    · obtain ⟨rfl, hat⟩ := hb
      obtain ⟨⟨token', after'⟩, hat⟩ := Option.ne_none_iff_exists'.1 hat
      rw [searchStatus_here hat] at h
      obtain ⟨rfl, rfl, rfl⟩ : [] = before ∧ token' = token ∧ after' = after := by simpa using h
      obtain ⟨blanks, heq, hblanks, hne, htoken, hafter⟩ := statusAt_eq_some hat
      exact ⟨⟨blanks, by simpa using heq, hblanks, hne, htoken⟩, hafter, .inl ⟨rfl, rfl⟩⟩
    · have hat : b = true → statusAt (c :: text) = none := fun hb' => by
        by_contra hne
        exact hb ⟨hb', hne⟩
      rw [searchStatus_cons hat] at h
      obtain ⟨⟨before', token', after'⟩, hfound, heq⟩ := Option.map_eq_some_iff.1 h
      obtain ⟨rfl, rfl, rfl⟩ : c :: before' = before ∧ token' = token ∧ after' = after := by
        simpa using heq
      obtain ⟨⟨blanks, heq, hblanks, hne, htoken⟩, hafter, hfront⟩ := ih hfound
      refine ⟨⟨blanks, by simp [heq], hblanks, hne, htoken⟩, hafter, .inr ?_⟩
      rcases hfront with ⟨rfl, hc⟩ | ⟨line, rfl, hline⟩
      · -- a match right behind `c` starts a line, so `c` is a newline
        obtain rfl : c = '\n' := by simpa using hc
        exact ⟨[], rfl, by cases b <;> rfl⟩
      · refine ⟨c :: line, rfl, ?_⟩
        have hat' : b = true → statusAt (c :: line) = none := by
          intro hb'
          by_contra hne'
          obtain ⟨⟨token'', after''⟩, hsome⟩ := Option.ne_none_iff_exists'.1 hne'
          have := statusAt_append_some ("STATUS:".toList ++ blanks ++ token' ++ after') hsome
          have hnone := hat hb'
          rw [heq] at hnone
          simp only [List.append_assoc, List.cons_append, List.nil_append] at this hnone
          rw [hnone] at this
          cases this
        rw [searchStatus_cons hat', hline]
        rfl

/-- A status written at the front or after a newline is found there. -/
theorem searchStatus_written (before token after : Text) (hne : token ≠ []) (htoken : ∀ c ∈ token, isSpace c = false)
    (hafter : ∀ c, after.head? = some c → isSpace c = true)
    (hfront : before = [] ∨ ∃ line, before = line ++ ['\n'] ∧ searchStatus true line = none) :
    searchStatus true (before ++ "STATUS: ".toList ++ token ++ after) = some (before, token, after) := by
  have hblank : ∀ c ∈ [' '], c = ' ' ∨ c = '\t' := by simp
  have hhere : searchStatus true ("STATUS: ".toList ++ token ++ after) = some ([], token, after) :=
    searchStatus_here (statusAt_of hblank hne htoken hafter)
  rcases hfront with rfl | ⟨line, rfl, hline⟩
  · exact hhere
  · have := searchStatus_append_none ("STATUS: ".toList ++ token ++ after) hline
    rw [hhere] at this
    simpa using this

/-- A blank line in front has no status. -/
theorem searchStatus_blank (h : searchStatus true text = none) : searchStatus true ('\n' :: text) = none := by
  rw [searchStatus_cons fun _ => statusAt_append_none (show statusAt [] = none by decide)]
  simp [h]

end Search

/-! ## What a rewritten gate keeps -/

/-- **Where the status of `text` stands**: between `before` and `after`, which hold the rest of
the text, or in a line of its own on top when `text` has no status. -/
structure Slot (text before after : Text) : Prop where
  holds : (∃ blanks token, text = before ++ "STATUS:".toList ++ blanks ++ token ++ after ∧
      (∀ c ∈ blanks, c = ' ' ∨ c = '\t') ∧ token ≠ [] ∧ ∀ c ∈ token, isSpace c = false) ∨
    (before = [] ∧ after = "\n\n".toList ++ text ∧ searchStatus true text = none)
  first : before = [] ∨ ∃ line, before = line ++ ['\n'] ∧ searchStatus true line = none
  ended : ∀ c, after.head? = some c → isSpace c = true

/-- **`out` is `text` with its status set**: the rest stands in order, but for white space at its
end, and what `added` brings starts on a line of its own. -/
def Kept (text status out : Text) : Prop :=
  ∃ before after kept added, Slot text before after ∧ (kept = after ∨ kept = rstrip after) ∧
    out = before ++ "STATUS: ".toList ++ status ++ kept ++ added ∧
    (added = [] ∨ ∃ rest, added = "\n\n".toList ++ rest)

section Rewrite

variable {text before after status out : Text}

/-- `set_status` writes the status into its slot and touches nothing else. -/
theorem slot_of (text : Text) : ∃ before after, Slot text before after ∧
    ∀ status, setStatus text status = before ++ "STATUS: ".toList ++ status ++ after := by
  rcases h : searchStatus true text with _ | ⟨before, token, after⟩
  · refine ⟨[], "\n\n".toList ++ text, ⟨.inr ⟨rfl, rfl, h⟩, .inl rfl, ?_⟩, fun status => ?_⟩
    · intro c hc
      obtain rfl : '\n' = c := by simpa using hc
      rfl
    · simp [setStatus, h]
  · obtain ⟨⟨blanks, heq, hblanks, hne, htoken⟩, hafter, hfront⟩ := searchStatus_eq_some h
    have hfront' := hfront.imp_left And.left
    exact ⟨before, after, ⟨.inl ⟨blanks, token, heq, hblanks, hne, htoken⟩, hfront', hafter⟩,
      fun status => by simp [setStatus, h]⟩

theorem head?_rstrip {c : Char} (h : ∀ c, after.head? = some c → isSpace c = true)
    (hc : (rstrip after).head? = some c) : isSpace c = true := by
  rcases Text.rstrip_eq after with ⟨hnil, -⟩ | ⟨body, d, blanks, hd, -, rfl, heq⟩
  · simp [hnil] at hc
  · refine h c ?_
    rw [heq] at hc
    rcases body with _ | ⟨e, body⟩
    · simpa using hc
    · simpa using hc

theorem statusOf_of_search {token : Text} (h : searchStatus true text = some (before, token, after)) :
    statusOf text = Text.upper token := by
  rw [statusOf, h]

/-- A rewritten gate has the status it was given. -/
theorem Kept.statusOf (h : Kept text status out) (hne : status ≠ [])
    (hstatus : ∀ c ∈ status, isSpace c = false) : statusOf out = Text.upper status := by
  obtain ⟨before, after, kept, added, hslot, hkept, rfl, hadded⟩ := h
  have hhead : ∀ c, (kept ++ added).head? = some c → isSpace c = true := by
    intro c hc
    rcases hk : kept with _ | ⟨d, kept'⟩
    · rcases hadded with rfl | ⟨rest, rfl⟩
      · simp [hk] at hc
      · obtain rfl : '\n' = c := by simpa [hk] using hc
        rfl
    · have hc : kept.head? = some c := by simpa [hk] using hc
      rcases hkept with rfl | rfl
      · exact hslot.ended c hc
      · exact head?_rstrip hslot.ended hc
  have := searchStatus_written before status _ hne hstatus hhead hslot.first
  rw [← List.append_assoc] at this
  exact statusOf_of_search this

theorem rstrip_setStatus (hne : status ≠ []) (hstatus : ∀ c ∈ status, isSpace c = false)
    (h : ∀ status, setStatus text status = before ++ "STATUS: ".toList ++ status ++ after) :
    rstrip (setStatus text status) = before ++ "STATUS: ".toList ++ status ++ rstrip after := by
  rw [h]
  exact Text.rstrip_append_word hne hstatus _ after

/-- Arming a gate again keeps what it said. -/
theorem kept_append (hasQuestionHeading : Text → Bool) (existing questions : Text) :
    Kept existing AWAITING_OPERATOR (appendOperatorGate hasQuestionHeading existing questions) := by
  obtain ⟨before, after, hslot, hset⟩ := slot_of existing
  have hblock : ∃ block, appendOperatorGate hasQuestionHeading existing questions =
      rstrip (setStatus existing AWAITING_OPERATOR) ++ ("\n\n".toList ++ block) :=
    ⟨_, by rw [appendOperatorGate, List.append_assoc, List.append_assoc]⟩
  obtain ⟨block, hblock⟩ := hblock
  refine ⟨before, after, rstrip after, "\n\n".toList ++ block, hslot, .inr rfl, ?_, .inr ⟨block, rfl⟩⟩
  rw [hblock, rstrip_setStatus (by decide) (by decide) hset]

/-- Answering a gate keeps what it said. -/
theorem kept_applyAnswer (text answer : Text) : Kept text ANSWERED (applyAnswer text answer) := by
  obtain ⟨before, after, hslot, hset⟩ := slot_of text
  unfold applyAnswer
  dsimp only
  split
  · exact ⟨before, after, after, [], hslot, .inl rfl, by rw [hset, List.append_nil], .inl rfl⟩
  · refine ⟨before, after, rstrip after, "\n\n".toList ++ (strip answer ++ ['\n']), hslot, .inr rfl, ?_,
      .inr ⟨_, rfl⟩⟩
    rw [rstrip_setStatus (by decide) (by decide) hset]
    simp

theorem statusOf_append (hasQuestionHeading : Text → Bool) (existing questions : Text) :
    statusOf (appendOperatorGate hasQuestionHeading existing questions) = AWAITING_OPERATOR := by
  rw [(kept_append hasQuestionHeading existing questions).statusOf (by decide) (by decide)]
  decide

theorem statusOf_applyAnswer (text answer : Text) :
    statusOf (applyAnswer text answer) = ANSWERED := by
  rw [(kept_applyAnswer text answer).statusOf (by decide) (by decide)]
  decide

end Rewrite

/-! ## Which lines are read back -/

/-- The lines of a heading in a text that starts `lines` lines further up. -/
def Heading.shift (lines : ℕ) (h : Heading) : Heading :=
  { h with first := h.first + lines, last := h.last + lines }

def TITLE : Text := "Questions from the agent".toList

/-- **What the code relies on of the Markdown parser.** `closed` says of a text that each of its
blocks ends before its end: a heading after it is read as one, and what follows the heading is
read on its own. Lines are those that `\n`, `\r` and `\r\n` end. -/
structure Commonmark (headings : Text → List Heading) (closed : Text → Prop) : Prop where
  heading : ∀ text rest, closed text →
    headings (text ++ "\n\n## ".toList ++ TITLE ++ '\n' :: rest) =
      headings text ++
        { level := 2, title := TITLE, first := endedLines (text ++ "\n\n".toList),
          last := endedLines (text ++ "\n\n".toList) + 1 } ::
        (headings rest).map (Heading.shift (endedLines (text ++ "\n\n".toList) + 1))
  blank : ∀ text, headings ('\n' :: text ++ ['\n']) = (headings text).map (Heading.shift 1)
  empty : headings [] = []

/-- The text above the new question in a gate that is armed again. -/
def history (existing : Text) : Text := rstrip (setStatus existing AWAITING_OPERATOR)

/-- **The two line counts agree**: the text before has no boundary of `str.splitlines()` that ends
no line of a file, and the question none but the newline. -/
structure PlainLines (existing questions : Text) : Prop where
  above : ∀ c ∈ rstrip existing, isStray c = false
  asked : ∀ c ∈ strip questions, isBreak c = true → c = '\n'

section Question

variable {headings : Text → List Heading} {closed : Text → Prop} {existing questions : Text} {limit : ℕ}

/-- What stands below the heading of the question `q`. -/
def below (q : Text) : Text := if q = [] then [] else '\n' :: q ++ ['\n']

/-- The block appended for a question without headings and without a status. -/
theorem append_eq (hplain : headings (strip questions) = [])
    (hstatus : searchStatus true (strip questions) = none) :
    appendOperatorGate (hasQuestionHeading headings) existing questions =
      history existing ++ "\n\n## ".toList ++ TITLE ++ '\n' :: below (strip questions) := by
  have hformat : formatOperatorGate (hasQuestionHeading headings) questions =
      "STATUS: ".toList ++ AWAITING_OPERATOR ++
        ("\n\n".toList ++ ("## ".toList ++ TITLE ++ "\n\n".toList ++ strip questions) ++ ['\n']) := by
    have hno : ¬ (statusOf (strip questions) ≠ [] ∨ hasQuestionHeading headings (strip questions) = true) := by
      simp [statusOf, hstatus, hasQuestionHeading, hplain]
    unfold formatOperatorGate
    dsimp only
    rw [if_neg hno]
    rfl
  have hsearch := searchStatus_written [] AWAITING_OPERATOR
    ("\n\n".toList ++ ("## ".toList ++ TITLE ++ "\n\n".toList ++ strip questions) ++ ['\n'])
    (by decide) (by decide) (by
      intro c hc
      obtain rfl : '\n' = c := by simpa using hc
      rfl) (.inl rfl)
  rw [List.nil_append, ← hformat] at hsearch
  have hblock : strip ([] ++ ("\n\n".toList ++ ("## ".toList ++ TITLE ++ "\n\n".toList ++
      strip questions) ++ ['\n'])) ++ ['\n'] =
      "## ".toList ++ TITLE ++ '\n' :: below (strip questions) := by
    rw [List.nil_append, Text.strip_between (by decide) (by decide)]
    rcases Text.strip_eq questions with hnil | ⟨c, rest, body, d, hfirst, hc, hlast, hd⟩
    · rw [hnil]
      decide
    · rw [Text.strip_of_ends (c := '#') (d := d) (by rfl) (by decide) (by rw [hlast, ← List.append_assoc]) hd]
      have hne : strip questions ≠ [] := by simp [hfirst]
      simp [below, hne]
  unfold appendOperatorGate
  dsimp only
  rw [hsearch]
  dsimp only
  rw [List.append_assoc, hblock]
  simp [history]

/-- The line of the heading. -/
def HEADING : Text := "## ".toList ++ TITLE

/-- The lines above the heading. -/
def linesAbove (text : Text) : List Text := linesFrom [] (text ++ ['\n']) ++ [[]]

theorem splitlines_asked (text rest : Text) :
    splitlines (text ++ "\n\n## ".toList ++ TITLE ++ '\n' :: rest) =
      linesAbove text ++ HEADING :: splitlines rest := by
  have htext : text ++ "\n\n## ".toList ++ TITLE ++ '\n' :: rest =
      text ++ '\n' :: ([] ++ '\n' :: (HEADING ++ '\n' :: rest)) := by simp [HEADING]
  have hblank : linesFrom [] ([] ++ ['\n']) = [[]] := by decide
  have hheading : linesFrom [] (HEADING ++ ['\n']) = [HEADING] := by decide
  rw [htext, splitlines, Text.linesFrom_append_newline, splitlines,
    Text.linesFrom_append_newline [] [] (HEADING ++ '\n' :: rest), hblank, splitlines,
    Text.linesFrom_append_newline [] HEADING rest, hheading]
  simp [linesAbove]

theorem length_linesAbove (text : Text) :
    (linesAbove text).length = endedLines (text ++ "\n\n".toList) + text.countP isStray := by
  have hcount := Text.length_linesFrom [] text
  have hend : endedLines (text ++ "\n\n".toList) = endedLines (text ++ ['\n']) + 1 :=
    Text.endedLines_append_newline text ['\n']
  rw [linesAbove, List.length_append, List.length_singleton]
  omega

/-- **What is read back**: the lines from the one after the heading on, as the Markdown parser
counts them. -/
theorem latest_question_append (hc : Commonmark headings closed) (hclosed : closed (history existing))
    (hplain : headings (strip questions) = []) (hstatus : searchStatus true (strip questions) = none) :
    latest_question headings (appendOperatorGate (hasQuestionHeading headings) existing questions) limit =
      capped limit (strip (dropStatus (['\n'].intercalate
        ((linesAbove (history existing) ++ HEADING :: splitlines (below (strip questions))).drop
          (endedLines (history existing ++ "\n\n".toList) + 1))))) := by
  have hbelow : headings (below (strip questions)) = [] := by
    unfold below
    split
    · exact hc.empty
    · rw [hc.blank, hplain]
      rfl
  have hopen : ∀ first last, ({ level := 2, title := TITLE, first, last } : Heading).opensQuestion = true := by
    intro first last
    show (2 == 2 && _QUESTION_HEADINGS.contains (casefold (squeezed TITLE))) = true
    decide
  unfold latest_question
  dsimp only
  rw [append_eq hplain hstatus, hc.heading _ _ hclosed, splitlines_asked, hbelow, List.map_nil,
    List.foldl_append, List.foldl_cons, List.foldl_nil, Span.see, if_pos (hopen _ _)]
  dsimp only
  rw [List.take_length]

/-- Lines that `\n` alone ends are read back as they were written. -/
theorem intercalate_below {q : Text} (h : ∀ c ∈ q, isBreak c = true → c = '\n') :
    ['\n'].intercalate (splitlines (below q)) = if q = [] then [] else '\n' :: q := by
  unfold below
  split
  · rfl
  · have hne : linesFrom [] (q ++ ['\n']) ≠ [] := Text.linesFrom_ne_nil (.inr (by simp))
    have hlf : splitlines ('\n' :: q ++ ['\n']) = [] :: linesFrom [] (q ++ ['\n']) :=
      Text.linesFrom_break (by decide) fun _ h => absurd h (by decide)
    rw [hlf, List.intercalate_cons_of_ne_nil hne, Text.intercalate_linesFrom h]
    rfl

theorem dropStatus_of_none {text : Text} (h : searchStatus true text = none) : dropStatus text = text := by
  rw [dropStatus, h]

/-- The boundaries of the history are those of the text before it was armed again. -/
theorem stray_history (existing : Text) :
    (∀ c ∈ history existing, isStray c = false) ↔ ∀ c ∈ rstrip existing, isStray c = false := by
  obtain ⟨before, after, hslot, hset⟩ := slot_of existing
  have hhistory : history existing = before ++ "STATUS: ".toList ++ AWAITING_OPERATOR ++ rstrip after :=
    rstrip_setStatus (by decide) (by decide) hset
  have hword : ∀ c ∈ AWAITING_OPERATOR, isStray c = false := by decide
  have hhead : ∀ c ∈ "STATUS: ".toList, isStray c = false := by decide
  have hhead' : ∀ c ∈ "STATUS:".toList, isStray c = false := by decide
  have hsides : (∀ c ∈ history existing, isStray c = false) ↔
      (∀ c ∈ before, isStray c = false) ∧ ∀ c ∈ rstrip after, isStray c = false := by
    simp only [hhistory, List.forall_mem_append]
    exact ⟨fun h => ⟨h.1.1.1, h.2⟩, fun h => ⟨⟨⟨h.1, hhead⟩, hword⟩, h.2⟩⟩
  rw [hsides]
  rcases hslot.holds with ⟨blanks, token, heq, hblanks, hne, htoken⟩ | ⟨rfl, rfl, -⟩
  · have hrstrip : rstrip existing = before ++ "STATUS:".toList ++ blanks ++ token ++ rstrip after := by
      rw [heq]
      exact Text.rstrip_append_word hne htoken _ after
    have hb : ∀ c ∈ blanks, isStray c = false := by
      intro c hc
      rcases hblanks c hc with rfl | rfl <;> rfl
    have ht : ∀ c ∈ token, isStray c = false := fun c hc =>
      Text.isStray_of_not_isSpace (htoken c hc)
    simp only [hrstrip, List.forall_mem_append]
    exact ⟨fun h => ⟨⟨⟨⟨h.1, hhead'⟩, hb⟩, ht⟩, h.2⟩, fun h => ⟨h.1.1.1.1, h.2⟩⟩
  · have hnl : ∀ c ∈ "\n\n".toList, isStray c = false := by decide
    rcases Text.rstrip_eq existing with ⟨hnil, hblank⟩ | ⟨body, d, blanks, hd, hblank, heq, hrstrip⟩
    · rw [hnil, Text.rstrip_append_blank hblank]
      simp only [List.not_mem_nil, false_implies, implies_true, true_and, iff_true]
      decide
    · have hafter : rstrip ("\n\n".toList ++ existing) = "\n\n".toList ++ rstrip existing := by
        have := Text.rstrip_append (a := "\n\n".toList ++ body) hd blanks
        have hall := Text.rstrip_append (a := body) hd blanks
        rw [← heq] at hall
        rw [hall, heq]
        simpa using this
      simp only [hafter, List.forall_mem_append]
      exact ⟨fun h => h.2.2, fun h => ⟨by simp, hnl, h⟩⟩

/-- The question is read back when the two line counts agree. -/
theorem read_of_plainLines (hc : Commonmark headings closed) (hclosed : closed (history existing))
    (hplain : headings (strip questions) = []) (hstatus : searchStatus true (strip questions) = none)
    (hlimit : (strip questions).length ≤ limit) (h : PlainLines existing questions) :
    latest_question headings (appendOperatorGate (hasQuestionHeading headings) existing questions) limit =
      strip questions := by
  have hstray : (history existing).countP isStray = 0 := by
    rw [List.countP_eq_zero]
    intro c hc
    simp [(stray_history existing).2 h.above c hc]
  have hlines := length_linesAbove (history existing)
  have hdrop : (linesAbove (history existing) ++ HEADING :: splitlines (below (strip questions))).drop
      (endedLines (history existing ++ "\n\n".toList) + 1) = splitlines (below (strip questions)) := by
    rw [List.append_cons, List.drop_left' (by rw [List.length_append, List.length_singleton]; omega)]
  rw [latest_question_append hc hclosed hplain hstatus, hdrop, intercalate_below h.asked]
  rcases Text.strip_eq questions with hnil | ⟨c, rest, body, d, hfirst, hd, hlast, hd'⟩
  · rw [if_pos hnil, hnil]
    rfl
  · have hne : strip questions ≠ [] := by simp [hfirst]
    have hnone : searchStatus true ('\n' :: strip questions) = none := searchStatus_blank hstatus
    have hstrip : strip ('\n' :: strip questions) = strip questions := by
      have hblank : strip (['\n'] ++ strip questions ++ []) = strip (strip questions) :=
        Text.strip_between (by decide) (by simp)
      rw [List.append_nil] at hblank
      exact hblank.trans (Text.strip_strip questions)
    rw [if_neg hne, dropStatus_of_none hnone, hstrip, capped, if_pos hlimit]

/-- What is read back has no boundary but the newline. -/
theorem newline_of_mem_latest {text : Text} {c : Char} (h : c ∈ latest_question headings text limit)
    (hc : isBreak c = true) : c = '\n' := by
  have hjoin : ∀ {ls : List Text}, (∀ l ∈ ls, l ∈ splitlines text) → c ∈ ['\n'].intercalate ls → c = '\n' := by
    intro ls hls hmem
    rcases mem_intercalate hmem with hnl | ⟨l, hl, hcl⟩
    · simpa using hnl
    · have := Text.not_isBreak_of_mem_linesFrom (by simp) (hls l hl) c hcl
      rw [hc] at this
      cases this
  have hdrop : ∀ {joined : Text}, c ∈ dropStatus joined → c ∈ joined := by
    intro joined hmem
    unfold dropStatus at hmem
    split at hmem
    · next before token after hs =>
      obtain ⟨⟨blanks, rfl, -⟩, -⟩ := searchStatus_eq_some hs
      simp only [List.mem_append] at hmem ⊢
      rcases hmem with hmem | hmem
      · exact .inl (.inl (.inl (.inl hmem)))
      · exact .inr hmem
    · exact hmem
  have hspan : ∀ span : Span, c ∈ strip (dropStatus (['\n'].intercalate
      (((splitlines text).take span.stop).drop span.start))) → c = '\n' := by
    intro span hmem
    refine hjoin (fun l hl => ?_) (hdrop (Text.mem_strip hmem))
    exact List.mem_of_mem_take (List.mem_of_mem_drop hl)
  unfold latest_question capped at h
  dsimp only at h
  split at h
  · exact hspan _ h
  · rcases List.mem_append.1 h with h | h
    · exact hspan _ (List.mem_of_mem_take (Text.mem_rstrip h))
    · have hnote : ∀ c ∈ TRUNCATION_NOTE, isBreak c = true → c = '\n' := by decide
      exact hnote c h hc

/-- Taking a status out above a text without one leaves the text. -/
theorem dropStatus_above (above : Text) {asked : Text} (habove : above = [] ∨ ∃ front, above = front ++ ['\n'])
    (hasked : searchStatus true asked = none) : ∃ kept, dropStatus (above ++ asked) = kept ++ asked := by
  rcases habove with rfl | ⟨front, rfl⟩
  · exact ⟨[], dropStatus_of_none hasked⟩
  · have heq : front ++ ['\n'] ++ asked = front ++ '\n' :: asked := by simp
    rcases h : searchStatus true front with _ | ⟨before, token, after⟩
    · have := searchStatus_append_none asked h
      rw [hasked] at this
      exact ⟨front ++ ['\n'], by rw [heq, dropStatus_of_none this]⟩
    · have := searchStatus_append_some asked h
      exact ⟨before ++ after ++ ['\n'], by rw [heq, dropStatus, this]; simp⟩

/-- The heading and the question below it, as they are read back together. -/
def asked (q : Text) : Text := HEADING ++ if q = [] then [] else "\n\n".toList ++ q

theorem intercalate_asked {q : Text} (h : ∀ c ∈ q, isBreak c = true → c = '\n') :
    ['\n'].intercalate (HEADING :: splitlines (below q)) = asked q := by
  have hbelow := intercalate_below h
  rcases q with _ | ⟨c, q⟩
  · rfl
  · have hne : splitlines (below (c :: q)) ≠ [] := Text.linesFrom_ne_nil (.inr (by simp [below]))
    rw [List.intercalate_cons_of_ne_nil hne, hbelow]
    simp [asked]

theorem searchStatus_asked {q : Text} (h : searchStatus true q = none) :
    searchStatus true (asked q) = none := by
  have hheading : searchStatus true HEADING = none := by decide
  unfold asked
  split
  · rw [List.append_nil]
    exact hheading
  · have := searchStatus_append_none ('\n' :: q) hheading
    rwa [searchStatus_blank h] at this

/-- A stray boundary above makes the heading, and what follows it, part of what is read back. -/
theorem read_of_stray (limit : ℕ) (hc : Commonmark headings closed) (hclosed : closed (history existing))
    (hplain : headings (strip questions) = []) (hstatus : searchStatus true (strip questions) = none)
    (hasked : ∀ c ∈ strip questions, isBreak c = true → c = '\n')
    (hstray : 0 < (history existing).countP isStray) :
    ∃ question, asked (strip questions) <:+ question ∧
      latest_question headings (appendOperatorGate (hasQuestionHeading headings) existing questions) limit =
        capped limit question := by
  have hlines := length_linesAbove (history existing)
  have hdrop : (linesAbove (history existing) ++ HEADING :: splitlines (below (strip questions))).drop
      (endedLines (history existing ++ "\n\n".toList) + 1) =
      (linesAbove (history existing)).drop (endedLines (history existing ++ "\n\n".toList) + 1) ++
        HEADING :: splitlines (below (strip questions)) :=
    List.drop_append_of_le_length (by omega)
  refine ⟨_, ?_, latest_question_append hc hclosed hplain hstatus⟩
  rw [hdrop, intercalate_append_cons, intercalate_asked hasked]
  generalize (linesAbove (history existing)).drop _ = lines
  have habove : ∀ {lines : List Text}, (if lines = [] then [] else ['\n'].intercalate lines ++ ['\n']) = [] ∨
      ∃ front, (if lines = [] then [] else ['\n'].intercalate lines ++ ['\n']) = front ++ ['\n'] := by
    intro lines
    split
    · exact .inl rfl
    · exact .inr ⟨_, rfl⟩
  obtain ⟨kept, hkept⟩ := dropStatus_above (if lines = [] then [] else
    ['\n'].intercalate lines ++ ['\n']) habove (searchStatus_asked hstatus)
  rw [hkept]
  rcases Text.strip_eq questions with hnil | ⟨c, rest, body, d, hfirst, -, hlast, hd⟩
  · rw [hnil]
    have hends : asked [] = "## Questions from the agen".toList ++ ['t'] := by decide
    exact Text.suffix_strip (c := '#') (by rfl) (by decide) hends (by decide)
  · have hne : strip questions ≠ [] := by simp [hfirst]
    have hends : asked (strip questions) = HEADING ++ ("\n\n".toList ++ body) ++ [d] := by
      rw [asked, if_neg hne]
      conv_lhs => rw [hlast]
      simp
    exact Text.suffix_strip (c := '#') (by rfl) (by decide) hends hd

/-- The converse: what is read back is the question only when the line counts agree, or the
question ends with the note of a cut one. -/
theorem plainLines_of_read (hc : Commonmark headings closed) (hclosed : closed (history existing))
    (hplain : headings (strip questions) = []) (hstatus : searchStatus true (strip questions) = none)
    (hread : latest_question headings (appendOperatorGate (hasQuestionHeading headings) existing questions)
      limit = strip questions) :
    PlainLines existing questions ∨ TRUNCATION_NOTE <:+ strip questions := by
  have hasked : ∀ c ∈ strip questions, isBreak c = true → c = '\n' := fun c hmem hbreak =>
    newline_of_mem_latest (hread ▸ hmem) hbreak
  by_cases hstray : 0 < (history existing).countP isStray
  · right
    obtain ⟨question, hsuffix, heq⟩ := read_of_stray limit hc hclosed hplain hstatus hasked hstray
    rw [hread, capped] at heq
    split at heq
    · -- the heading makes what is read back longer than the question
      have hlen := hsuffix.length_le
      rw [← heq, asked, List.length_append] at hlen
      have hheading : HEADING.length = 27 := rfl
      split at hlen
      · next hnil =>
        rw [hnil] at hlen
        simp only [List.length_nil] at hlen
        omega
      · rw [List.length_append] at hlen
        omega
    · rw [heq]
      exact List.suffix_append _ _
  · left
    refine ⟨(stray_history existing).1 fun c hmem => ?_, hasked⟩
    have := List.countP_eq_zero.1 (Nat.eq_zero_of_not_pos hstray) c hmem
    simpa using this

end Question

/-! ## A text of paragraphs and headings -/

/-- The heading that a line is, on line `n`. -/
def headingOf (n : ℕ) (line : Text) : List Heading :=
  let level := (line.takeWhile (· == '#')).length
  if 1 ≤ level ∧ level ≤ 6 ∧ (line.drop level).head? = some ' ' then
    [{ level, title := strip (line.drop level), first := n, last := n + 1 }]
  else []

/-- The headings of a text that has no blocks but paragraphs and `#` headings, from line `n` on. -/
def plainFrom : ℕ → Bool → Text → List Heading
  | _, _, [] => []
  | n, _, '\r' :: '\n' :: cs => plainFrom (n + 1) true cs
  | n, lineStart, c :: cs =>
    if c = '\n' ∨ c = '\r' then plainFrom (n + 1) true cs
    else
      (if lineStart then headingOf n ((c :: cs).takeWhile fun c => c != '\n' && c != '\r') else []) ++
        plainFrom n false cs

/-- The headings of such a text. -/
def plainHeadings (text : Text) : List Heading := plainFrom 0 true text

theorem headingOf_add (n k : ℕ) (line : Text) :
    headingOf (n + k) line = (headingOf n line).map (Heading.shift k) := by
  unfold headingOf
  dsimp only
  split
  · simp [Heading.shift, Nat.add_right_comm]
  · rfl

theorem plainFrom_add (k n : ℕ) (b : Bool) (text : Text) :
    plainFrom (n + k) b text = (plainFrom n b text).map (Heading.shift k) := by
  induction n, b, text using plainFrom.induct with
  | case1 => simp [plainFrom]
  | case2 n b cs ih =>
    rw [plainFrom, plainFrom, ← ih, Nat.add_right_comm]
  | case3 n b c cs hne hc ih =>
    rw [plainFrom.eq_3 _ _ _ _ hne, plainFrom.eq_3 _ _ _ _ hne, if_pos hc, if_pos hc, ← ih,
      Nat.add_right_comm]
  | case4 n b c cs hne hc ih =>
    rw [plainFrom.eq_3 _ _ _ _ hne, plainFrom.eq_3 _ _ _ _ hne, if_neg hc, if_neg hc, List.map_append,
      ← ih]
    cases b
    · rfl
    · rw [if_pos rfl, if_pos rfl, headingOf_add]

theorem plainFrom_append_newline (n : ℕ) (b : Bool) (text rest : Text) :
    plainFrom n b (text ++ '\n' :: rest) =
      plainFrom n b text ++ plainFrom (n + endedLines (text ++ ['\n'])) true rest := by
  have hend : ∀ {n : ℕ} {b : Bool} {rest : Text}, plainFrom n b ('\n' :: rest) = plainFrom (n + 1) true rest := by
    intro n b rest
    rw [plainFrom.eq_3 _ _ _ _ fun _ h _ => absurd h (by decide), if_pos (.inl rfl)]
  induction n, b, text using plainFrom.induct with
  | case1 n b =>
    have hone : endedLines ([] ++ ['\n']) = 1 := by decide
    rw [hone]
    exact hend
  | case2 n b cs ih =>
    simp only [List.cons_append, plainFrom, endedLines, ih, Nat.add_assoc, Nat.add_comm 1]
  | case3 n b c cs hne hc ih =>
    by_cases hcr : c = '\r' ∧ cs = []
    · obtain ⟨rfl, rfl⟩ := hcr
      simp [plainFrom, endedLines]
    · have hpair : ∀ tail rest' : Text, c = '\r' → cs ++ '\n' :: tail ≠ '\n' :: rest' := by
        intro tail rest' h heq
        rcases cs with _ | ⟨d, cs⟩
        · exact hcr ⟨h, rfl⟩
        · obtain ⟨rfl, -⟩ := List.cons.inj heq
          exact hne cs h rfl
      rw [List.cons_append, List.cons_append, plainFrom.eq_3 _ _ _ _ fun r h h' => hpair _ r h h',
        plainFrom.eq_3 _ _ _ _ hne, if_pos hc, if_pos hc, ih, Text.endedLines_end hc (hpair _)]
      rw [Nat.add_assoc, Nat.add_comm 1]
  | case4 n b c cs hne hc ih =>
    have hpair : ∀ r : Text, c = '\r' → cs ++ '\n' :: rest = '\n' :: r → False := fun r h _ => hc (.inr h)
    have hline : (c :: (cs ++ '\n' :: rest)).takeWhile (fun c => c != '\n' && c != '\r') =
        (c :: cs).takeWhile fun c => c != '\n' && c != '\r' := by
      rw [← List.cons_append, List.takeWhile_append]
      split
      · next hall =>
        have hwhole := (List.takeWhile_prefix (l := c :: cs) fun c => c != '\n' && c != '\r').eq_of_length hall
        rw [hwhole, List.takeWhile_cons_of_neg (by decide), List.append_nil]
      · rfl
    rw [List.cons_append, List.cons_append, plainFrom.eq_3 _ _ _ _ hpair, plainFrom.eq_3 _ _ _ _ hne,
      if_neg hc, if_neg hc, ih, Text.endedLines_plain hc, hline, List.append_assoc]

theorem commonmark_plain : Commonmark plainHeadings fun _ => True where
  heading text rest _ := by
    have htext : text ++ "\n\n## ".toList ++ TITLE ++ '\n' :: rest =
        text ++ '\n' :: ([] ++ '\n' :: (HEADING ++ '\n' :: rest)) := by simp [HEADING]
    have hend : endedLines (text ++ "\n\n".toList) = endedLines (text ++ ['\n']) + 1 :=
      Text.endedLines_append_newline text ['\n']
    have hheading : plainFrom 0 true HEADING = [⟨2, TITLE, 0, 1⟩] := by decide
    have hline : endedLines (HEADING ++ ['\n']) = 1 := by decide
    have hblank : endedLines ([] ++ ['\n']) = 1 := by decide
    have hat := plainFrom_add (endedLines (text ++ ['\n']) + 1) 0 true HEADING
    have hrest := plainFrom_add (endedLines (text ++ ['\n']) + 1 + 1) 0 true rest
    rw [Nat.zero_add] at hat hrest
    rw [htext, plainHeadings, plainFrom_append_newline, plainFrom_append_newline _ _ [],
      plainFrom_append_newline _ _ HEADING, hline, hblank, hend, Nat.zero_add, hrest, hat, hheading]
    simp [plainHeadings, plainFrom, Heading.shift, Nat.add_comm]
  blank text := by
    have hone : endedLines ([] ++ ['\n']) = 1 := by decide
    have hback := plainFrom_append_newline 1 true text []
    have hfront := plainFrom_append_newline 0 true [] (text ++ ['\n'])
    have hshift := plainFrom_add 1 0 true text
    rw [hone, Nat.zero_add, hback, hshift] at hfront
    simpa [plainHeadings, plainFrom] using hfront
  empty := rfl

/-! ## The newest question -/

section Newest

variable {headings : Text → List Heading} {closed : Text → Prop} {existing questions : Text} {limit : ℕ}

/-- **The newest question is the one that is read back, exactly when the line counts agree.**

An existing gate is armed again with a question that has no heading, no status and at most
`limit` characters. What is read back is the question when `PlainLines` holds, and only then
unless the question itself ends with the note of a cut one. The gate waits again, an answered
gate does not, and both keep every other line of the text before. -/
theorem newest_question (hc : Commonmark headings closed) (hclosed : closed (history existing))
    (hplain : headings (strip questions) = []) (hstatus : searchStatus true (strip questions) = none)
    (hlimit : (strip questions).length ≤ limit) :
    (PlainLines existing questions → latest_question headings
        (appendOperatorGate (hasQuestionHeading headings) existing questions) limit = strip questions) ∧
      (latest_question headings (appendOperatorGate (hasQuestionHeading headings) existing questions)
        limit = strip questions → PlainLines existing questions ∨ TRUNCATION_NOTE <:+ strip questions) ∧
      statusOf (appendOperatorGate (hasQuestionHeading headings) existing questions) = AWAITING_OPERATOR ∧
      Kept existing AWAITING_OPERATOR
        (appendOperatorGate (hasQuestionHeading headings) existing questions) ∧
      ∀ text answer, statusOf (applyAnswer text answer) = ANSWERED ∧
        Kept text ANSWERED (applyAnswer text answer) :=
  ⟨read_of_plainLines hc hclosed hplain hstatus hlimit, plainLines_of_read hc hclosed hplain hstatus,
    statusOf_append _ _ _, kept_append _ _ _,
    fun text answer => ⟨statusOf_applyAnswer text answer, kept_applyAnswer text answer⟩⟩

end Newest

/-- A gate answered once, and asked again. -/
theorem newest_question_second :
    latest_question plainHeadings (appendOperatorGate (hasQuestionHeading plainHeadings)
      "STATUS: ANSWERED\n\n## Questions from the agent\n\nWhich file?\n\n## Answer\n\nThe first.\n".toList
      "And then?\n".toList) _QUESTION_LIMIT = "And then?".toList :=
  have hread := newest_question commonmark_plain trivial (by decide) (by decide)
    (by decide)
  (hread.1 ⟨by decide, by decide⟩).trans (by decide)

/-- A form feed in the history: the heading is read back with the question. -/
theorem form_feed_shifts :
    latest_question plainHeadings (appendOperatorGate (hasQuestionHeading plainHeadings)
      "STATUS: ANSWERED\n\npasted\x0clog\n".toList "And then?\n".toList) _QUESTION_LIMIT =
        "## Questions from the agent\n\nAnd then?".toList ∧
      plainHeadings (strip "And then?\n".toList) = [] ∧
      searchStatus true (strip "And then?\n".toList) = none ∧
      strip "And then?\n".toList = "And then?".toList ∧
      "And then?".toList ≠ "## Questions from the agent\n\nAnd then?".toList := by
  decide

end Stablemate.Gates
