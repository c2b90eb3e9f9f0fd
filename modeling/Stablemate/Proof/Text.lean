import Stablemate.Lib.Lists
import Stablemate.Model.Text

/-!
# Facts about Python text

* `rstrip_append`, `suffix_strip`: white space is cut at the ends only.
* `linesFrom_append_newline`: the lines of a text are those up to a newline and those after.
* `intercalate_linesFrom`: a text whose only line boundary is `\\n` is its lines joined.
* `length_linesFrom`: `str.splitlines()` counts the lines that `\\n`, `\\r` and `\\r\\n` end, and
  one more for each other boundary.
* `utf8_injective`: a text is known by its bytes.
-/

namespace Stablemate.Text

variable {text a b : Text} {c : Char}

/-! ## White space at the ends -/

/-- A text is blank or ends with a last character that is not white space. -/
theorem rstrip_eq (text : Text) :
    (rstrip text = [] ∧ ∀ c ∈ text, isSpace c = true) ∨
      ∃ body d blanks, isSpace d = false ∧ (∀ c ∈ blanks, isSpace c = true) ∧
        text = body ++ d :: blanks ∧ rstrip text = body ++ [d] := by
  have hsplit := List.takeWhile_append_dropWhile (p := isSpace) (l := text.reverse)
  have hblank : ∀ c ∈ text.reverse.takeWhile isSpace, isSpace c = true := fun c hc =>
    List.mem_takeWhile_imp hc
  rcases hrest : text.reverse.dropWhile isSpace with _ | ⟨d, body⟩
  · refine .inl ⟨by simp [rstrip, hrest], fun c hc => hblank c ?_⟩
    rw [hrest, List.append_nil] at hsplit
    rw [hsplit]
    exact List.mem_reverse.2 hc
  · have hd : isSpace d = false := by
      have := List.head?_dropWhile_not isSpace text.reverse
      rw [hrest] at this
      simpa using this
    refine .inr ⟨body.reverse, d, (text.reverse.takeWhile isSpace).reverse, hd,
      fun c hc => hblank c (List.mem_reverse.1 hc), ?_, by simp [rstrip, hrest]⟩
    rw [hrest] at hsplit
    have := congrArg List.reverse hsplit
    simpa using this.symm

theorem rstrip_append_blank (h : ∀ c ∈ b, isSpace c = true) : rstrip (a ++ b) = rstrip a := by
  have hb : b.reverse.dropWhile isSpace = [] :=
    List.dropWhile_eq_nil_iff.2 fun c hc => h c (List.mem_reverse.1 hc)
  rw [rstrip, List.reverse_append, List.dropWhile_append, hb]
  rfl

/-- What ends with a character that is not white space stays whole. -/
theorem rstrip_snoc (hc : isSpace c = false) : rstrip (a ++ [c]) = a ++ [c] := by
  simp [rstrip, hc]

theorem rstrip_append (hc : isSpace c = false) (b : Text) :
    rstrip (a ++ c :: b) = a ++ c :: rstrip b := by
  rcases rstrip_eq b with ⟨hnil, hblank⟩ | ⟨body, d, blanks, hd, hblank, rfl, hb⟩
  · have := rstrip_append_blank (a := a ++ [c]) hblank
    rw [rstrip_snoc hc] at this
    simpa [hnil] using this
  · have := rstrip_append_blank (a := a ++ c :: body ++ [d]) hblank
    rw [rstrip_snoc hd] at this
    simpa [hb] using this

/-- Nothing is cut in front of a word. -/
theorem rstrip_append_word {word : Text} (hne : word ≠ []) (hword : ∀ c ∈ word, isSpace c = false)
    (a b : Text) : rstrip (a ++ word ++ b) = a ++ word ++ rstrip b := by
  obtain ⟨front, d, rfl⟩ := List.eq_nil_or_concat word |>.resolve_left hne
  have := rstrip_append (a := a ++ front) (c := d) (hword d (by simp)) b
  simpa using this

theorem mem_rstrip (h : c ∈ rstrip text) : c ∈ text := by
  have := (List.dropWhile_suffix isSpace).subset (List.mem_reverse.1 h)
  exact List.mem_reverse.1 this

theorem mem_strip (h : c ∈ strip text) : c ∈ text :=
  (List.dropWhile_suffix isSpace).subset (mem_rstrip h)

/-- `str.strip()` leaves nothing or a text whose two ends are not white space. -/
theorem strip_eq (text : Text) :
    strip text = [] ∨
      ∃ c rest body d, strip text = c :: rest ∧ isSpace c = false ∧
        strip text = body ++ [d] ∧ isSpace d = false := by
  rcases rstrip_eq (text.dropWhile isSpace) with ⟨hnil, -⟩ | ⟨body, d, blanks, hd, -, htext, heq⟩
  · exact .inl hnil
  · have hhead := List.head?_dropWhile_not isSpace text
    right
    rcases body with _ | ⟨c, body⟩
    · exact ⟨d, [], [], d, heq, hd, heq, hd⟩
    · rw [htext] at hhead
      exact ⟨c, body ++ [d], c :: body, d, heq, by simpa using hhead, heq, hd⟩

/-- What has no white space at its two ends is left whole. -/
theorem strip_of_ends {rest body : Text} {d : Char} (hfirst : text = c :: rest)
    (hc : isSpace c = false) (hlast : text = body ++ [d]) (hd : isSpace d = false) :
    strip text = text := by
  have hdrop : text.dropWhile isSpace = text := by
    rw [hfirst, List.dropWhile_cons_of_neg (by simp [hc])]
  rw [strip, hdrop, hlast, rstrip_snoc hd]

theorem strip_strip (text : Text) : strip (strip text) = strip text := by
  rcases strip_eq text with h | ⟨c, rest, body, d, hfirst, hc, hlast, hd⟩
  · rw [h]
    rfl
  · exact strip_of_ends hfirst hc hlast hd

/-- White space in front and behind is cut. -/
theorem strip_between (ha : ∀ c ∈ a, isSpace c = true) (hb : ∀ c ∈ b, isSpace c = true) :
    strip (a ++ text ++ b) = strip text := by
  have hdrop : (a ++ text ++ b).dropWhile isSpace = (text ++ b).dropWhile isSpace := by
    rw [List.append_assoc, List.dropWhile_append, List.dropWhile_eq_nil_iff.2 ha]
    rfl
  rw [strip, hdrop, List.dropWhile_append]
  split
  · next hnil =>
    have hblank : ∀ c ∈ text, isSpace c = true :=
      List.dropWhile_eq_nil_iff.1 (List.isEmpty_iff.1 hnil)
    have hnone : b.dropWhile isSpace = [] := List.dropWhile_eq_nil_iff.2 hb
    rw [hnone, strip, List.isEmpty_iff.1 hnil]
  · exact rstrip_append_blank hb

/-- **What starts and ends without white space is kept at the end of the text.** -/
theorem suffix_strip {rest body : Text} {d : Char} (hfirst : b = c :: rest)
    (hc : isSpace c = false) (hlast : b = body ++ [d]) (hd : isSpace d = false) :
    b <:+ strip (a ++ b) := by
  have hkeep : ∀ front : Text, b <:+ rstrip (front ++ b) := by
    intro front
    rw [hlast, ← List.append_assoc, rstrip_snoc hd, List.append_assoc]
    exact List.suffix_append _ _
  rw [strip, List.dropWhile_append]
  split
  · rw [hfirst, List.dropWhile_cons_of_neg (by simp [hc]), ← hfirst]
    exact hkeep []
  · exact hkeep _

/-! ## Lines -/

/-- A line boundary of `str.splitlines()` that does not end a line of the text as a file. -/
def isStray (c : Char) : Bool := isBreak c && c != '\n' && c != '\r'

/-- The lines that `\n`, `\r` and `\r\n` end. -/
def endedLines : Text → ℕ
  | [] => 0
  | '\r' :: '\n' :: cs => endedLines cs + 1
  | c :: cs => if c = '\n' ∨ c = '\r' then endedLines cs + 1 else endedLines cs

theorem isSpace_of_isBreak (h : isBreak c = true) : isSpace c = true := by
  simp only [isBreak, isSpace, Bool.or_eq_true, Bool.and_eq_true, decide_eq_true_eq, beq_iff_eq] at h ⊢
  omega

theorem isBreak_of_isStray (h : isStray c = true) : isBreak c = true := by
  simp only [isStray, Bool.and_eq_true] at h
  exact h.1.1

theorem isStray_of_not_isSpace (h : isSpace c = false) : isStray c = false := by
  by_contra hstray
  have := isSpace_of_isBreak (isBreak_of_isStray (by simpa using hstray))
  rw [h] at this
  cases this

theorem eq_newline_or_cr {c : Char} (h : isBreak c = true) (hstray : isStray c = false) :
    c = '\n' ∨ c = '\r' := by
  simp only [isStray, h, Bool.true_and, Bool.and_eq_false_iff, bne_eq_false_iff_eq] at hstray
  exact hstray

theorem endedLines_end (hc : c = '\n' ∨ c = '\r') {cs : Text}
    (hpair : ∀ rest, c = '\r' → cs ≠ '\n' :: rest) : endedLines (c :: cs) = endedLines cs + 1 := by
  rw [endedLines.eq_3 c cs fun rest h h' => hpair rest h h', if_pos hc]

theorem endedLines_plain (hc : ¬ (c = '\n' ∨ c = '\r')) {cs : Text} :
    endedLines (c :: cs) = endedLines cs := by
  rw [endedLines.eq_3 c cs fun rest h _ => hc (.inr h), if_neg hc]

/-- **The lines of a text are those up to a newline and those after it.** -/
theorem linesFrom_append_newline (line text rest : Text) :
    linesFrom line (text ++ '\n' :: rest) = linesFrom line (text ++ ['\n']) ++ splitlines rest := by
  have hlf : ∀ line rest : Text, linesFrom line ('\n' :: rest) = line.reverse :: splitlines rest :=
    fun line rest => linesFrom_break (by decide) fun _ h => absurd h (by decide)
  induction line, text using linesFrom.induct with
  | case1 => simp [hlf, splitlines, linesFrom]
  | case2 => simp [hlf, splitlines, linesFrom]
  | case3 line cs ih => simp [linesFrom, ih]
  | case4 line c cs hne hc ih =>
    by_cases hend : c = '\r' ∧ cs = []
    · -- the carriage return and the newline end one line
      obtain ⟨rfl, rfl⟩ := hend
      simp [linesFrom, splitlines]
    · have hpair : ∀ tail rest' : Text, c = '\r' → cs ++ '\n' :: tail ≠ '\n' :: rest' := by
        intro tail rest' hcr heq
        rcases cs with _ | ⟨d, cs⟩
        · exact hend ⟨hcr, rfl⟩
        · obtain ⟨rfl, -⟩ := List.cons.inj heq
          exact hne cs hcr rfl
      rw [List.cons_append, List.cons_append, linesFrom_break hc (hpair _),
        linesFrom_break hc (hpair _), ih, List.cons_append]
  | case5 line c cs hne hc ih =>
    have hc : isBreak c = false := by simpa using hc
    rw [List.cons_append, List.cons_append, linesFrom_plain hc, linesFrom_plain hc, ih]

/-- **`str.splitlines()` counts one more line for each stray boundary.** -/
theorem length_linesFrom (line text : Text) :
    (linesFrom line (text ++ ['\n'])).length = endedLines (text ++ ['\n']) + text.countP isStray := by
  have hlf : ∀ line : Text, linesFrom line ['\n'] = [line.reverse] :=
    fun line => linesFrom_break (by decide) fun _ h => absurd h (by decide)
  induction line, text using linesFrom.induct with
  | case1 => decide
  | case2 => simp [hlf, endedLines]
  | case3 line cs ih =>
    have hcr : isStray '\r' = false := by decide
    have hnl : isStray '\n' = false := by decide
    simp [linesFrom, endedLines, ih, hcr, hnl]
    omega
  | case4 line c cs hne hc ih =>
    by_cases hend : c = '\r' ∧ cs = []
    · obtain ⟨rfl, rfl⟩ := hend
      simp [linesFrom, endedLines, isStray]
    · have hpair : ∀ rest' : Text, c = '\r' → cs ++ ['\n'] ≠ '\n' :: rest' := by
        intro rest' hcr heq
        rcases cs with _ | ⟨d, cs⟩
        · exact hend ⟨hcr, rfl⟩
        · obtain ⟨rfl, -⟩ := List.cons.inj heq
          exact hne cs hcr rfl
      rw [List.cons_append, linesFrom_break hc hpair, List.length_cons, ih, List.countP_cons]
      by_cases hstray : isStray c = true
      · have hplain : ¬ (c = '\n' ∨ c = '\r') := by
          rintro (rfl | rfl)
          · exact absurd hstray (by decide)
          · exact absurd hstray (by decide)
        rw [endedLines_plain hplain, if_pos hstray]
        omega
      · rw [endedLines_end (eq_newline_or_cr hc (by simpa using hstray)) hpair, if_neg hstray]
        omega
  | case5 line c cs hne hc ih =>
    have hc : isBreak c = false := by simpa using hc
    have hplain : ¬ (c = '\n' ∨ c = '\r') := by
      rintro (rfl | rfl)
      · exact absurd hc (by decide)
      · exact absurd hc (by decide)
    have hstray : isStray c = false := by simp [isStray, hc]
    rw [List.cons_append, linesFrom_plain hc, endedLines_plain hplain, ih, List.countP_cons, hstray]
    rfl

/-- A newline ends a line wherever it stands. -/
theorem endedLines_append_newline (text rest : Text) :
    endedLines (text ++ '\n' :: rest) = endedLines (text ++ ['\n']) + endedLines rest := by
  have hend : ∀ rest : Text, endedLines ('\n' :: rest) = endedLines rest + 1 :=
    fun rest => endedLines_end (.inl rfl) fun _ h => absurd h (by decide)
  induction text using endedLines.induct with
  | case1 =>
    rw [List.nil_append, List.nil_append, hend, hend]
    exact Nat.add_comm _ _
  | case2 cs ih =>
    simp only [List.cons_append, endedLines, ih]
    omega
  | case3 c cs hne hc ih =>
    by_cases hcr : c = '\r' ∧ cs = []
    · obtain ⟨rfl, rfl⟩ := hcr
      simp only [List.cons_append, List.nil_append, endedLines]
      omega
    · have hpair : ∀ tail rest' : Text, c = '\r' → cs ++ '\n' :: tail ≠ '\n' :: rest' := by
        intro tail rest' h heq
        rcases cs with _ | ⟨d, cs⟩
        · exact hcr ⟨h, rfl⟩
        · obtain ⟨rfl, -⟩ := List.cons.inj heq
          exact hne cs h rfl
      rw [List.cons_append, List.cons_append, endedLines_end hc (hpair _), endedLines_end hc (hpair _), ih]
      omega
  | case4 c cs hne hc ih =>
    rw [List.cons_append, List.cons_append, endedLines_plain hc, endedLines_plain hc, ih]

/-- A text whose only boundary is `\n` is its lines joined. -/
theorem intercalate_linesFrom (h : ∀ c ∈ text, isBreak c = true → c = '\n') (line : Text) :
    ['\n'].intercalate (linesFrom line (text ++ ['\n'])) = line.reverse ++ text := by
  have hlf : ∀ line rest : Text, linesFrom line ('\n' :: rest) = line.reverse :: linesFrom [] rest :=
    fun line rest => linesFrom_break (by decide) fun _ h => absurd h (by decide)
  induction text generalizing line with
  | nil => simp [hlf, linesFrom]
  | cons c text ih =>
    have ih := ih fun d hd => h d (List.mem_cons_of_mem _ hd)
    by_cases hc : isBreak c = true
    · obtain rfl := h c List.mem_cons_self hc
      have hne : linesFrom [] (text ++ ['\n']) ≠ [] := linesFrom_ne_nil (.inr (by simp))
      rw [List.cons_append, hlf, List.intercalate_cons_of_ne_nil hne, ih []]
      simp
    · rw [List.cons_append, linesFrom_plain (by simpa using hc), ih]
      simp

/-- No line holds a boundary. -/
theorem not_isBreak_of_mem_linesFrom {line l : Text} (hline : ∀ c ∈ line, isBreak c = false)
    (hl : l ∈ linesFrom line text) : ∀ c ∈ l, isBreak c = false := by
  induction line, text using linesFrom.induct with
  | case1 => simp [linesFrom] at hl
  | case2 line hne =>
    obtain rfl : l = line.reverse := by simpa [linesFrom, hne] using hl
    exact fun c hc => hline c (List.mem_reverse.1 hc)
  | case3 line cs ih =>
    rcases List.mem_cons.1 hl with rfl | hl
    · exact fun c hc => hline c (List.mem_reverse.1 hc)
    · exact ih (by simp) hl
  | case4 line c cs hne hc ih =>
    rw [linesFrom_break hc fun rest h h' => hne rest h h'] at hl
    rcases List.mem_cons.1 hl with rfl | hl
    · exact fun c hc => hline c (List.mem_reverse.1 hc)
    · exact ih (by simp) hl
  | case5 line c cs hne hc ih =>
    have hc : isBreak c = false := by simpa using hc
    rw [linesFrom_plain hc] at hl
    refine ih (fun d hd => ?_) hl
    rcases List.mem_cons.1 hd with rfl | hd
    · exact hc
    · exact hline d hd

/-! ## Bytes -/

theorem toNat_lt (c : Char) : c.toNat < 0x110000 := by
  have hvalid := c.valid
  unfold UInt32.isValidChar Nat.isValidChar at hvalid
  unfold Char.toNat
  omega

/-- The first byte of a code point tells how many follow. -/
theorem utf8Char_cases (c : Char) :
    (c.toNat < 0x80 ∧ utf8Char c = [c.toNat]) ∨
    (0x80 ≤ c.toNat ∧ c.toNat < 0x800 ∧ utf8Char c = [0xC0 + c.toNat / 64, 0x80 + c.toNat % 64]) ∨
    (0x800 ≤ c.toNat ∧ c.toNat < 0x10000 ∧
      utf8Char c = [0xE0 + c.toNat / 4096, 0x80 + c.toNat / 64 % 64, 0x80 + c.toNat % 64]) ∨
    (0x10000 ≤ c.toNat ∧ c.toNat < 0x110000 ∧ utf8Char c =
      [0xF0 + c.toNat / 262144, 0x80 + c.toNat / 4096 % 64, 0x80 + c.toNat / 64 % 64, 0x80 + c.toNat % 64]) := by
  have hlt := toNat_lt c
  unfold utf8Char
  by_cases h1 : c.toNat < 0x80
  · exact .inl ⟨h1, if_pos h1⟩
  · by_cases h2 : c.toNat < 0x800
    · exact .inr (.inl ⟨by omega, h2, by rw [if_neg h1, if_pos h2]⟩)
    · by_cases h3 : c.toNat < 0x10000
      · exact .inr (.inr (.inl ⟨by omega, h3, by rw [if_neg h1, if_neg h2, if_pos h3]⟩))
      · exact .inr (.inr (.inr ⟨by omega, hlt, by rw [if_neg h1, if_neg h2, if_neg h3]⟩))

/-- The bytes of a code point do not begin those of another one. -/
theorem utf8Char_cut (c d : Char) (x y : List ℕ) (h : utf8Char c ++ x = utf8Char d ++ y) : c = d ∧ x = y := by
  have hvalue : c.toNat = d.toNat → c = d := fun heq => Char.ext (UInt32.toNat_inj.1 heq)
  rcases utf8Char_cases c with ⟨hc, hcb⟩ | ⟨hc, hc', hcb⟩ | ⟨hc, hc', hcb⟩ | ⟨hc, hc', hcb⟩ <;>
    rcases utf8Char_cases d with ⟨hd, hdb⟩ | ⟨hd, hd', hdb⟩ | ⟨hd, hd', hdb⟩ | ⟨hd, hd', hdb⟩ <;>
    rw [hcb, hdb] at h <;> clear hcb hdb <;> obtain ⟨hhead, htail⟩ := List.cons.inj h <;> clear h
  -- as many bytes, or another first one
  case inl.inl => exact ⟨hvalue hhead, htail⟩
  case inr.inl.inr.inl =>
    obtain ⟨h2, hrest⟩ := List.cons.inj htail
    exact ⟨hvalue (by omega), hrest⟩
  case inr.inr.inl.inr.inr.inl =>
    obtain ⟨h2, htail⟩ := List.cons.inj htail
    obtain ⟨h3, hrest⟩ := List.cons.inj htail
    exact ⟨hvalue (by omega), hrest⟩
  case inr.inr.inr.inr.inr.inr =>
    obtain ⟨h2, htail⟩ := List.cons.inj htail
    obtain ⟨h3, htail⟩ := List.cons.inj htail
    obtain ⟨h4, hrest⟩ := List.cons.inj htail
    exact ⟨hvalue (by omega), hrest⟩
  all_goals exfalso; clear htail; omega

theorem utf8_injective : Function.Injective utf8 := flatMap_injective utf8Char_ne_nil utf8Char_cut

end Stablemate.Text
