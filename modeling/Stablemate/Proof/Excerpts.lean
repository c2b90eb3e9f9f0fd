import Stablemate.Lib.Checks
import Stablemate.Lib.Lines
import Stablemate.Lib.Lists
import Stablemate.Model.Excerpts
import Stablemate.Proof.Text

/-!
# What an excerpt carries

* `fileLines`: the lines that newlines end; `strays`: the other boundaries of `str.splitlines` that
  something stands behind.
* `length_splitlines`, `keptLines_eq`: `str.splitlines` counts and cuts the lines of a text without strays.
* `support_iff`: a support excerpt is built, and carries its lines, just when its source has no strays.
* `container_spec`: a bullet is on a section's own lines.
* `excerpts_carry_lines`: **where the pages have no strays up to the end of an excerpt and the fence is
  counted right, every excerpt of the book and every window carries the lines that it names**.
-/

namespace Stablemate.Behavior

open Text (isBreak linesFrom splitlines)

variable {text line : Text} {c : Char}

/-! ## Lines -/

/-- The lines of a file, which end at a newline. -/
def fileLines (text : Text) : List Text := Lines.lines (· == '\n') text

/-- The lines from the one number to the other. -/
def between (text : Text) (start stop : ℕ) : Text := (((fileLines text).take stop).drop (start - 1)).flatten

/-- The line boundaries other than `\n` and `\r\n` that something stands behind. -/
def strays : Text → ℕ
  | [] => 0
  | '\r' :: '\n' :: cs => strays cs
  | c :: cs => (if isBreak c = true ∧ c ≠ '\n' ∧ cs ≠ [] then 1 else 0) + strays cs

/-- A boundary that ends no line of the file. -/
theorem strays_cons {cs : Text} (hpair : ∀ rest, c = '\r' → cs ≠ '\n' :: rest) :
    strays (c :: cs) = (if isBreak c = true ∧ c ≠ '\n' ∧ cs ≠ [] then 1 else 0) + strays cs :=
  strays.eq_3 c cs fun rest h h' => hpair rest h h'

theorem strays_plain {cs : Text} (hc : isBreak c = false) : strays (c :: cs) = strays cs := by
  have hpair : ∀ rest, c = '\r' → cs ≠ '\n' :: rest := by
    rintro rest rfl
    exact absurd hc (by decide)
  rw [strays_cons hpair, if_neg (by simp [hc]), Nat.zero_add]

/-- Lines whose first one has begun with a reversed text. -/
def begun (line : Text) : List Text → List Text
  | [] => if line = [] then [] else [line.reverse]
  | x :: xs => (line.reverse ++ x) :: xs

@[simp] theorem begun_nil (xs : List Text) : begun [] xs = xs := by
  cases xs with
  | nil => rfl
  | cons x xs => rfl

theorem begun_onto (xs : List Text) : begun line (Lines.onto c xs) = begun (c :: line) xs := by
  cases xs with
  | nil => simp [Lines.onto, begun]
  | cons x xs => simp [Lines.onto, begun]

theorem fileLines_newline (cs : Text) : fileLines ('\n' :: cs) = ['\n'] :: fileLines cs := Lines.lines_cons_stop rfl

theorem fileLines_cons {cs : Text} (hc : c ≠ '\n') : fileLines (c :: cs) = Lines.onto c (fileLines cs) :=
  Lines.lines_cons (beq_eq_false_iff_ne.2 hc)

theorem fileLines_ne_nil (h : text ≠ []) : fileLines text ≠ [] := by
  intro hnil
  have hflat := Lines.flatten_lines (· == '\n') text
  unfold fileLines at hnil
  rw [hnil] at hflat
  exact h hflat.symm

theorem length_begun (c : Char) {cs : Text} (hne : cs ≠ []) (line : Text) :
    (begun line (Lines.onto c (fileLines cs))).length = (fileLines cs).length := by
  cases hlines : fileLines cs with
  | nil => exact absurd hlines (fileLines_ne_nil hne)
  | cons x xs => rfl

/-- **`str.splitlines` counts a line more for every stray boundary.** -/
theorem length_linesFrom_begun (line text : Text) :
    (linesFrom line text).length = (begun line (fileLines text)).length + strays text := by
  induction line, text using Text.linesFrom.induct with
  | case1 => rfl
  | case2 line hne => simp [linesFrom, hne, fileLines, begun, strays]
  | case3 line cs ih =>
    have hlines : fileLines ('\r' :: '\n' :: cs) = ['\r', '\n'] :: fileLines cs := by
      rw [fileLines_cons (by decide), fileLines_newline]
      rfl
    rw [hlines, strays, linesFrom, List.length_cons, ih, begun_nil]
    simp only [begun, List.length_cons]
    omega
  | case4 line c cs hne hc ih =>
    rw [Text.linesFrom_break hc fun rest h h' => hne rest h h', strays_cons fun rest h h' => hne rest h h',
      List.length_cons, ih, begun_nil]
    by_cases hnewline : c = '\n'
    · subst hnewline
      rw [fileLines_newline, if_neg (by simp)]
      simp only [begun, List.length_cons]
      omega
    · rw [fileLines_cons hnewline]
      by_cases hcs : cs = []
      · subst hcs
        rw [if_neg (by simp)]
        rfl
      · rw [if_pos ⟨hc, hnewline, hcs⟩, length_begun c hcs]
        omega
  | case5 line c cs hne hc ih =>
    have hplain : isBreak c = false := by simpa using hc
    have hnewline : c ≠ '\n' := by
      rintro rfl
      exact absurd hplain (by decide)
    rw [Text.linesFrom_plain hplain, ih, fileLines_cons hnewline, begun_onto, strays_plain hplain]

theorem length_splitlines (text : Text) : (splitlines text).length = (fileLines text).length + strays text := by
  have hbegun := length_linesFrom_begun [] text
  rwa [begun_nil] at hbegun

/-- **Without strays it cuts the lines of the file.** -/
theorem keptLinesFrom_begun (line text : Text) (h : strays text = 0) :
    keptLinesFrom line text = begun line (fileLines text) := by
  induction line, text using keptLinesFrom.induct with
  | case1 => rfl
  | case2 line hne => simp [keptLinesFrom, hne, fileLines, begun]
  | case3 line cs ih =>
    have hlines : fileLines ('\r' :: '\n' :: cs) = ['\r', '\n'] :: fileLines cs := by
      rw [fileLines_cons (by decide), fileLines_newline]
      rfl
    rw [strays] at h
    rw [hlines, keptLinesFrom, ih h, begun_nil]
    simp [begun]
  | case4 line c cs hne hc ih =>
    rw [strays_cons fun rest h h' => hne rest h h'] at h
    rw [keptLinesFrom_break hc fun rest h h' => hne rest h h', ih (by omega), begun_nil]
    by_cases hnewline : c = '\n'
    · subst hnewline
      rw [fileLines_newline]
      simp [begun]
    · by_cases hcs : cs = []
      · subst hcs
        rw [fileLines_cons hnewline, begun_onto]
        rfl
      · rw [if_pos ⟨hc, hnewline, hcs⟩] at h
        omega
  | case5 line c cs hne hc ih =>
    have hplain : isBreak c = false := by simpa using hc
    have hnewline : c ≠ '\n' := by
      rintro rfl
      exact absurd hplain (by decide)
    rw [strays_plain hplain] at h
    rw [keptLinesFrom_plain hplain, ih h, fileLines_cons hnewline, begun_onto]

theorem keptLines_eq (h : strays text = 0) : keptLines text = fileLines text := by
  unfold keptLines
  rw [keptLinesFrom_begun [] text h, begun_nil]

/-- What stands in front adds strays. -/
theorem strays_append (a b : Text) : strays b ≤ strays (a ++ b) := by
  induction a with
  | nil => exact le_rfl
  | cons c a ih =>
    refine ih.trans ?_
    rw [List.cons_append]
    by_cases hpair : ∀ rest, c = '\r' → a ++ b ≠ '\n' :: rest
    · rw [strays_cons hpair]
      exact Nat.le_add_left _ _
    · push Not at hpair
      obtain ⟨rest, rfl, hrest⟩ := hpair
      rw [hrest, strays, strays_cons (by simp)]
      simp

/-- The validator counts the lines of the file. -/
theorem lineCount_eq (h : text ≠ []) : lineCount text = (fileLines text).length := by
  have hlen : (Lines.lines (· == '\n') text).length =
      text.countP (· == '\n') + if text.getLast?.all (· == '\n') then 0 else 1 := Lines.length_lines text
  unfold lineCount fileLines
  rw [hlen]
  cases hlast : text.getLast? with
  | none => exact absurd (List.getLast?_eq_none_iff.1 hlast) h
  | some d =>
    by_cases hd : d = '\n'
    · subst hd
      rfl
    · simp [hd, List.count]

/-- What stands behind adds strays too. -/
theorem strays_append_left (a b : Text) : strays a ≤ strays (a ++ b) := by
  induction a using strays.induct with
  | case1 => exact Nat.zero_le _
  | case2 cs ih => simpa [strays] using ih
  | case3 c cs hpair ih =>
    rw [strays_cons fun rest h h' => hpair rest h h']
    by_cases hcs : cs = []
    · subst hcs
      rw [if_neg (by simp)]
      exact Nat.zero_le _
    · have hpair' : ∀ rest, c = '\r' → cs ++ b ≠ '\n' :: rest := by
        intro rest hc heq
        cases cs with
        | nil => exact hcs rfl
        | cons d cs =>
          obtain ⟨rfl, -⟩ := List.cons.inj heq
          exact hpair cs hc rfl
      rw [List.cons_append, strays_cons hpair']
      refine Nat.add_le_add ?_ ih
      split
      · next h => rw [if_pos ⟨h.1, h.2.1, List.append_ne_nil_of_left_ne_nil h.2.2 b⟩]
      · exact Nat.zero_le _

theorem lineCount_pos (text : Text) : 1 ≤ lineCount text := by
  by_cases h : text = []
  · subst h
    decide
  · rw [lineCount_eq h]
    exact List.length_pos_iff.2 (fileLines_ne_nil h)

/-- **When a support excerpt is built and carries its lines.** -/
theorem support_iff (relative source source_digest : Text) :
    (∃ e, supportExcerpt relative source source_digest = .ok e ∧ e.text = between source e.start_line e.end_line) ↔
      strays source = 0 := by
  have hlen := length_splitlines source
  have hspans : ((max 1 (splitlines source).length : ℕ) : ℤ) - (1 : ℕ) + 1 = (max 1 (lineCount source) : ℕ) ↔ strays source = 0 := by
    by_cases h : source = []
    · subst h
      decide
    · have hcount := lineCount_eq h
      have hpos := lineCount_pos source
      omega
  constructor
  · rintro ⟨e, he, -⟩
    unfold supportExcerpt at he
    dsimp only at he
    split at he
    · next hok => exact hspans.1 hok
    · cases he
  · intro h
    have hok := hspans.2 h
    refine ⟨⟨relative, 1, max 1 (splitlines source).length, source, source_digest⟩, if_pos hok, ?_⟩
    unfold between
    dsimp only
    rw [Nat.sub_self, List.drop_zero, List.take_of_length_le (by omega)]
    exact (Lines.flatten_lines _ _).symm

/-- Behind a newline `str.splitlines` begins anew. -/
theorem keptLinesFrom_append_newline (line text rest : Text) :
    keptLinesFrom line (text ++ '\n' :: rest) = keptLinesFrom line (text ++ ['\n']) ++ keptLines rest := by
  have hnewline : ∀ line rest : Text, keptLinesFrom line ('\n' :: rest) = ('\n' :: line).reverse :: keptLines rest :=
    fun line rest => keptLinesFrom_break (by decide) fun _ h => absurd h (by decide)
  induction line, text using keptLinesFrom.induct with
  | case1 => simp [hnewline, keptLines, keptLinesFrom]
  | case2 => simp [hnewline, keptLines, keptLinesFrom]
  | case3 line cs ih => simp [keptLinesFrom, ih]
  | case4 line c cs hne hc ih =>
    by_cases hend : c = '\r' ∧ cs = []
    · -- the carriage return and the newline end one line
      obtain ⟨rfl, rfl⟩ := hend
      simp [keptLinesFrom, keptLines]
    · have hpair : ∀ tail rest' : Text, c = '\r' → cs ++ '\n' :: tail ≠ '\n' :: rest' := by
        intro tail rest' hcr heq
        rcases cs with _ | ⟨d, cs⟩
        · exact hend ⟨hcr, rfl⟩
        · obtain ⟨rfl, -⟩ := List.cons.inj heq
          exact hne cs hcr rfl
      rw [List.cons_append, List.cons_append, keptLinesFrom_break hc (hpair _), keptLinesFrom_break hc (hpair _), ih,
        List.cons_append]
  | case5 line c cs hne hc ih =>
    have hplain : isBreak c = false := by simpa using hc
    rw [List.cons_append, List.cons_append, keptLinesFrom_plain hplain, keptLinesFrom_plain hplain, ih]

/-- **The first lines of a text are cut right if they have no strays.** -/
theorem take_keptLines {stop : ℕ} (h : strays ((fileLines text).take stop).flatten = 0) :
    (keptLines text).take stop = (fileLines text).take stop := by
  rcases Nat.lt_or_ge stop (fileLines text).length with hlt | hge
  · obtain ⟨front, rest, htext, htake, -, hend⟩ := Lines.lines_split hlt
    change fileLines front = (fileLines text).take stop at htake
    have hfront : strays front = 0 := by
      rw [← htake] at h
      rwa [← Lines.flatten_lines (· == '\n') front]
    have hlen : (fileLines front).length = stop := by
      rw [htake, List.length_take]
      omega
    have hsplit : keptLines text = fileLines front ++ keptLines rest := by
      rcases hend with rfl | ⟨p, a, rfl, ha⟩
      · rw [htext]
        rfl
      · obtain rfl := eq_of_beq ha
        rw [htext, List.append_assoc, List.singleton_append, ← keptLines_eq hfront]
        exact keptLinesFrom_append_newline [] p rest
    rw [hsplit, ← htake, ← hlen, List.take_left]
  · rw [List.take_of_length_le hge] at h ⊢
    have hall : strays text = 0 := by rwa [← Lines.flatten_lines (· == '\n') text]
    rw [keptLines_eq hall, List.take_of_length_le hge]

/-! ## Pages -/

section Page

variable {md : Blocks} {body raw : Text} {sec row : Section} {b : ℕ}

/-- **What the block parser does**: headings come one below the other, and a list item is on a line with text. -/
structure Blocks.Lawful (md : Blocks) : Prop where
  headings : ∀ text, ((md.headings text).map (·.line_start)).Pairwise (· < ·)
  bullets : ∀ text, ∀ b ∈ md.bullets text, ∃ piece, (text.splitOn '\n')[b]? = some piece ∧ piece ≠ []

theorem map_headed (total : ℕ) (headings : List Heading) :
    (headed total headings).map (·.line_start) = headings.map (·.line_start) := by
  induction headings with
  | nil => rfl
  | cons h rest ih => rw [headed, List.map_cons, List.map_cons, ih]

/-- Below a line of a body that a heading stands above there is one whose section goes around the line. -/
theorem exists_around {total : ℕ} : ∀ {headings : List Heading}, (headings.map (·.line_start)).Pairwise (· < ·) → b < total →
    ∀ sec ∈ headed total headings, sec.line_start ≤ b →
      ∃ around ∈ headed total headings, sec.line_start ≤ around.line_start ∧ around.line_start ≤ b ∧ b < around.line_end := by
  intro headings
  induction headings with
  | nil => exact fun _ _ sec hsec => absurd hsec List.not_mem_nil
  | cons h rest ih =>
    intro hpair hb sec hsec hle
    rw [List.map_cons, List.pairwise_cons] at hpair
    rw [headed] at hsec ⊢
    by_cases hlater : ∃ other ∈ headed total rest, other.line_start ≤ b
    · -- a later heading is still above the line
      obtain ⟨other, hother, hother'⟩ := hlater
      rcases List.mem_cons.1 hsec with rfl | hsec
      · obtain ⟨around, haround, hge, hin⟩ := ih hpair.2 hb other hother hother'
        have hmem : other.line_start ∈ rest.map (·.line_start) := by
          rw [← map_headed total rest]
          exact List.mem_map_of_mem hother
        exact ⟨around, List.mem_cons_of_mem _ haround, ((hpair.1 _ hmem).le).trans hge, hin⟩
      · obtain ⟨around, haround, hin⟩ := ih hpair.2 hb sec hsec hle
        exact ⟨around, List.mem_cons_of_mem _ haround, hin⟩
    · rcases List.mem_cons.1 hsec with rfl | hsec
      · refine ⟨_, List.mem_cons_self, le_rfl, hle, ?_⟩
        dsimp only
        cases hfind : rest.find? (fun nxt => nxt.level ≤ h.level) with
        | none => exact hb
        | some nxt =>
          have hmem : nxt.line_start ∈ (headed total rest).map (·.line_start) := by
            rw [map_headed]
            exact List.mem_map_of_mem (List.mem_of_find?_eq_some hfind)
          obtain ⟨other, hother, heq⟩ := List.mem_map.1 hmem
          rw [Option.elim_some, ← heq]
          exact not_le.1 fun hno => hlater ⟨other, hother, hno⟩
      · exact absurd ⟨sec, hsec, hle⟩ hlater

/-- A section is put below one that begins before it. -/
theorem nested_lt : ∀ {secs stack : List Section}, (secs.map (·.line_start)).Pairwise (· < ·) →
    (∀ p ∈ stack, ∀ s ∈ secs, p.line_start < s.line_start) →
    ∀ row ∈ nested stack secs, row.2 ∈ secs ∧ ∀ p, row.1 = some p → p.line_start < row.2.line_start := by
  intro secs
  induction secs with
  | nil => exact fun _ _ row hrow => absurd hrow List.not_mem_nil
  | cons s secs ih =>
    intro stack hpair hstack row hrow
    rw [List.map_cons, List.pairwise_cons] at hpair
    have hsub : ∀ p ∈ stack.dropWhile fun top => s.level ≤ top.level, p ∈ stack := fun p hp =>
      (List.dropWhile_sublist _).subset hp
    rw [nested] at hrow
    rcases List.mem_cons.1 hrow with rfl | hrow
    · refine ⟨List.mem_cons_self, fun p hp => ?_⟩
      exact hstack p (hsub p (List.mem_of_head? hp)) s List.mem_cons_self
    · have hbelow : ∀ p ∈ s :: stack.dropWhile (fun top => s.level ≤ top.level), ∀ t ∈ secs, p.line_start < t.line_start := by
        intro p hp t ht
        rcases List.mem_cons.1 hp with rfl | hp
        · exact hpair.1 _ (List.mem_map_of_mem ht)
        · exact hstack p (hsub p hp) t (List.mem_cons_of_mem s ht)
      obtain ⟨hmem, hlt⟩ := ih hpair.2 hbelow row hrow
      exact ⟨List.mem_cons_of_mem s hmem, hlt⟩

theorem childrenOf_spec (hmd : md.Lawful) {child : Section} (h : child ∈ childrenOf md body sec) :
    child ∈ headingSections md body ∧ sec.line_start < child.line_start := by
  obtain ⟨row, hrow, rfl⟩ := List.mem_map.1 h
  obtain ⟨hnested, hparent⟩ := List.mem_filter.1 hrow
  have hpair : ((headingSections md body).map (·.line_start)).Pairwise (· < ·) := by
    unfold headingSections
    rw [map_headed]
    exact hmd.headings body
  obtain ⟨hmem, hlt⟩ := nested_lt hpair (fun p hp => absurd hp List.not_mem_nil) row hnested
  exact ⟨hmem, hlt sec (of_decide_eq_true hparent)⟩

/-- The section that begins last. -/
theorem foldl_later : ∀ (sections : List Section) (best : Option Section), (best = none → sections ≠ []) →
    ∃ s, sections.foldl later best = some s ∧ (best = some s ∨ s ∈ sections) ∧
      (∀ t, best = some t → t.line_start ≤ s.line_start) ∧ ∀ t ∈ sections, t.line_start ≤ s.line_start := by
  intro sections
  induction sections with
  | nil =>
    intro best hbest
    cases best with
    | none => exact absurd rfl (hbest rfl)
    | some s => exact ⟨s, rfl, .inl rfl, fun t ht => (Option.some.inj ht) ▸ le_rfl, fun t ht => absurd ht List.not_mem_nil⟩
  | cons x sections ih =>
    intro best _
    have hlater : ∃ y, later best x = some y ∧ (best = some y ∨ y = x) ∧ x.line_start ≤ y.line_start ∧
        ∀ t, best = some t → t.line_start ≤ y.line_start := by
      cases best with
      | none => exact ⟨x, rfl, .inr rfl, le_rfl, fun t ht => absurd ht (Option.some_ne_none t).symm⟩
      | some t =>
        by_cases hlt : t.line_start < x.line_start
        · exact ⟨x, if_pos hlt, .inr rfl, le_rfl, fun u hu => (Option.some.inj hu) ▸ hlt.le⟩
        · exact ⟨t, if_neg hlt, .inl rfl, not_lt.1 hlt, fun u hu => (Option.some.inj hu) ▸ le_rfl⟩
    obtain ⟨y, hy, hfrom, hx, hbest⟩ := hlater
    obtain ⟨s, hs, hmem, hge, hall⟩ := ih (some y) fun hno => absurd hno (Option.some_ne_none y)
    refine ⟨s, by rw [List.foldl_cons, hy, hs], ?_, fun t ht => (hbest t ht).trans (hge y rfl), fun t ht => ?_⟩
    · rcases hmem with heq | hmem
      · obtain rfl := Option.some.inj heq
        exact hfrom.imp_right fun heq => List.mem_cons.2 (.inl heq)
      · exact .inr (List.mem_cons_of_mem x hmem)
    · rcases List.mem_cons.1 ht with rfl | ht
      · exact hx.trans (hge y rfl)
      · exact hall t ht

/-- Some section goes around every line of a body. -/
theorem around_line (hmd : md.Lawful) (hb : b < (body.splitOn '\n').length) :
    ∃ around ∈ sectionsOf md body, around.line_start ≤ b ∧ b < around.line_end := by
  have hpair := hmd.headings body
  unfold sectionsOf
  dsimp only
  by_cases hbelow : ∃ sec ∈ headingSections md body, sec.line_start ≤ b
  · obtain ⟨sec, hsec, hle⟩ := hbelow
    obtain ⟨around, haround, -, hin⟩ := exists_around hpair hb sec hsec hle
    split
    · exact ⟨around, List.mem_cons_of_mem _ haround, hin⟩
    · exact ⟨around, haround, hin⟩
  · -- it is before the first heading
    have hfirst : b < ((headingSections md body).head?).elim (body.splitOn '\n').length (·.line_start) := by
      cases hhead : (headingSections md body).head? with
      | none => exact hb
      | some sec => exact not_le.1 fun hle => hbelow ⟨sec, List.mem_of_head? hhead, hle⟩
    rw [if_pos (Nat.zero_lt_of_lt hfirst)]
    exact ⟨_, List.mem_cons_self, Nat.zero_le b, hfirst⟩

/-- **The section of a line goes around it, and its own text does.** -/
theorem container_spec (hmd : md.Lawful) (hb : b < (body.splitOn '\n').length) :
    ∃ sec, container (sectionsOf md body) b = some sec ∧ sec.line_start ≤ b ∧ b < ownEnd md body sec := by
  obtain ⟨around, haround, hin⟩ := around_line hmd hb
  have hmem : around ∈ (sectionsOf md body).filter fun s => s.line_start ≤ b ∧ b < s.line_end :=
    List.mem_filter.2 ⟨haround, decide_eq_true hin⟩
  obtain ⟨sec, hsec, hfrom, -, hall⟩ := foldl_later _ none fun _ => List.ne_nil_of_mem hmem
  have hin' := List.mem_filter.1 (hfrom.resolve_left fun hno => absurd hno (Option.some_ne_none sec).symm)
  obtain ⟨hstart, hend⟩ := of_decide_eq_true hin'.2
  refine ⟨sec, hsec, hstart, ?_⟩
  -- a child that began above the line would lie in a section that begins later still
  have hchild : ∀ child ∈ childrenOf md body sec, b < child.line_start := by
    intro child hchild
    obtain ⟨hheading, hlt⟩ := childrenOf_spec hmd hchild
    by_contra hno
    obtain ⟨deeper, hdeeper, hge, hdeep⟩ := exists_around (hmd.headings body) hb child hheading (not_lt.1 hno)
    have hsections : deeper ∈ sectionsOf md body := by
      unfold sectionsOf
      dsimp only
      split
      · exact List.mem_cons_of_mem _ hdeeper
      · exact hdeeper
    have hle := hall deeper (List.mem_filter.2 ⟨hsections, decide_eq_true hdeep⟩)
    omega
  unfold ownEnd
  cases hmin : ((childrenOf md body sec).map (·.line_start)).min? with
  | none => exact hend
  | some m =>
    obtain ⟨child, hmem, rfl⟩ := List.mem_map.1 (List.min?_mem hmin)
    exact hchild child hmem

/-- A bullet of a section is on a line of its own text. -/
theorem bulletsOf_spec (hmd : md.Lawful) (hb : b ∈ bulletsOf md body sec) :
    sec.line_start ≤ b ∧ b < ownEnd md body sec ∧ b < (fileLines body).length := by
  obtain ⟨hbullet, hsec⟩ := List.mem_filter.1 hb
  obtain ⟨piece, hpiece, hne⟩ := hmd.bullets body b hbullet
  obtain ⟨own, hown, hspec⟩ := container_spec hmd (List.getElem?_eq_some_iff.1 hpiece).1
  rw [hown, Option.some_or, decide_eq_true_eq] at hsec
  obtain rfl := Option.some.inj hsec
  exact ⟨hspec.1, hspec.2, Lines.lt_length_lines hpiece hne⟩

/-- No two sections begin on one line. -/
theorem nodup_starts (hmd : md.Lawful) : ((sectionsOf md body).map (·.line_start)).Nodup := by
  have hpair := hmd.headings body
  have hstarts : (headingSections md body).map (·.line_start) = (md.headings body).map (·.line_start) := map_headed _ _
  unfold sectionsOf
  dsimp only
  split
  · next hpos =>
    rw [List.map_cons, List.nodup_cons, hstarts]
    refine ⟨fun hmem => ?_, hpair.imp ne_of_lt⟩
    cases hheadings : headingSections md body with
    | nil =>
      rw [← hstarts, hheadings] at hmem
      cases hmem
    | cons first rest =>
      rw [hheadings, List.head?_cons, Option.elim_some] at hpos
      rw [← hstarts, hheadings, List.map_cons] at hmem hpair
      rcases List.mem_cons.1 hmem with hzero | hmem
      · exact hpos.ne hzero
      · exact Nat.not_lt_zero _ ((List.pairwise_cons.1 hpair).1 _ hmem)
  · rw [hstarts]
    exact hpair.imp ne_of_lt

/-! ## Contexts -/

/-- Where the body begins, by the span of the fence. -/
def bodyStart (md : Blocks) (raw : Text) : ℕ := (md.front_matter (_normalize raw)).elim 0 (·.2)

/-- The lines of a body are those of its page behind the fence. -/
theorem fileLines_body (md : Blocks) (raw : Text) :
    fileLines (split md raw).body = (fileLines (_normalize raw)).drop (bodyStart md raw) := by
  unfold split bodyStart
  cases hfront : md.front_matter (_normalize raw) with
  | none => simp [hfront]
  | some found =>
    obtain ⟨content, stop⟩ := found
    simp only [hfront, Option.elim_some]
    exact Lines.lines_drop stop _

/-- **An excerpt that carries the lines it names**, and is counted so by the validator. -/
structure CarriesLines (file : Text) (e : FileExcerpt) : Prop where
  bounded : e.Bounded
  text : e.text = between file e.start_line e.end_line
  plain : strays e.text = 0

/-- Some lines of a file with no strays, named by their numbers, are carried. -/
theorem carries_part {file : Text} {start stop : ℕ} (path digest : Text) (hstart : 1 ≤ start) (hle : start ≤ stop)
    (hstop : stop ≤ (fileLines file).length) (hplain : strays (between file start stop) = 0) :
    CarriesLines file ⟨path, start, stop, between file start stop, digest⟩ ∧
      fileLines (between file start stop) = ((fileLines file).take stop).drop (start - 1) := by
  have hlines : fileLines (between file start stop) = ((fileLines file).take stop).drop (start - 1) :=
    Lines.lines_part (start - 1) stop file
  have hlen : (fileLines (between file start stop)).length = stop + 1 - start := by
    rw [hlines, List.length_drop, List.length_take]
    omega
  have hne : between file start stop ≠ [] := by
    intro hnil
    rw [hnil] at hlen
    have hzero : (fileLines []).length = 0 := rfl
    omega
  refine ⟨⟨⟨hne, hstart, hstart.trans hle, ?_⟩, rfl, hplain⟩, hlines⟩
  have hcount := lineCount_eq hne
  dsimp only
  omega

/-- The fence is counted as the block parser spans it. -/
def Aligned (md : Blocks) (raw : Text) : Prop := (split md raw).body_offset = bodyStart md raw

/-- Nothing but newlines ends a line of the page's body up to the end of the section at a line. -/
def Plain (md : Blocks) (raw : Text) (line : ℕ) : Prop :=
  ∀ sec, sectionAt md (split md raw) line = some sec →
    strays ((fileLines (split md raw).body).take (ownEnd md (split md raw).body sec)).flatten = 0

/-- **A node as the page's loader makes it**: it has the line of a section's heading, and the lines of that section's
bullets. -/
structure OnPage (md : Blocks) (raw : Text) (node : UINode) : Prop where
  section_ : ∃ sec ∈ sectionsOf md (split md raw).body, node.line = (split md raw).body_offset + sec.line_start + 1 ∧
    node.bullet_lines = (bulletsOf md (split md raw).body sec).zipIdx.map (fun row =>
      (row.2, (split md raw).body_offset + row.1 + 1)) ∧
    ∀ bullet ∈ node.bullet_order, bullet.2.2 < (bulletsOf md (split md raw).body sec).length

variable {node : UINode} {digest : Text}

theorem lookup_zipIdx (f : ℕ → ℕ) : ∀ (l : List ℕ) (k i : ℕ),
    ((l.zipIdx k).map fun row => (row.2, f row.1)).lookup (k + i) = l[i]?.map f := by
  intro l
  induction l with
  | nil => exact fun _ _ => rfl
  | cons a l ih =>
    intro k i
    rw [List.zipIdx_cons, List.map_cons]
    cases i with
    | zero => rw [Nat.add_zero, List.lookup_cons_self]; rfl
    | succ i =>
      have hne : (k + (i + 1) == k) = false := beq_eq_false_iff_ne.2 (by omega)
      have hnext : k + (i + 1) = k + 1 + i := by omega
      rw [List.lookup_cons, hne, hnext, List.getElem?_cons_succ]
      exact ih (k + 1) i

/-- The section of a node is found by its line. -/
theorem sectionAt_eq (hmd : md.Lawful) {doc : MarkdownDoc} (hsec : sec ∈ sectionsOf md doc.body) :
    sectionAt md doc (doc.body_offset + sec.line_start + 1) = some sec := by
  unfold sectionAt
  cases hfind : (sectionsOf md doc.body).find? (fun s => doc.body_offset + s.line_start + 1 =
      doc.body_offset + sec.line_start + 1) with
  | none => exact absurd (decide_eq_true rfl) (List.find?_eq_none.1 hfind sec hsec)
  | some found =>
    have hline : doc.body_offset + found.line_start + 1 = doc.body_offset + sec.line_start + 1 := by
      simpa using List.find?_some hfind
    rw [eq_of_key (nodup_starts hmd) (List.mem_of_find?_eq_some hfind) hsec (by omega)]

/-- The line of a claim. -/
def claimLine (node : UINode) (position : ℕ) : ℕ := max 1 ((node.bullet_lines.lookup position).getD node.line)

/-- **The context of a node**, on a page that is counted right up to its end. -/
theorem bookContext_spec (digest : Text) (hmd : md.Lawful) (hnode : OnPage md raw node) (hne : node.bullet_order ≠ []) (haligned : Aligned md raw)
    (hplain : Plain md raw node.line) :
    ∃ ctx, bookContext md (split md raw) digest node = .ok ctx ∧ CarriesLines (_normalize raw) ctx.toFileExcerpt ∧
      ctx.node = node.id ∧ ctx.start_line = node.line ∧
      ∀ bullet ∈ node.bullet_order, ctx.start_line ≤ claimLine node bullet.2.2 ∧ claimLine node bullet.2.2 ≤ ctx.end_line := by
  obtain ⟨sec, hsec, hline, hlines, hpositions⟩ := hnode.section_
  have hat := sectionAt_eq hmd hsec
  rw [← hline] at hat
  have hhead := hplain sec hat
  -- every bullet is on a line of the section's own text
  have hbullet : ∀ bullet ∈ node.bullet_order, ∃ b, claimLine node bullet.2.2 = (split md raw).body_offset + b + 1 ∧
      sec.line_start ≤ b ∧ b < ownEnd md (split md raw).body sec ∧ b < (fileLines (split md raw).body).length := by
    intro bullet hmem
    have hpos := hpositions bullet hmem
    have hlookup := lookup_zipIdx (fun b => (split md raw).body_offset + b + 1)
      (bulletsOf md (split md raw).body sec) 0 bullet.2.2
    rw [Nat.zero_add, ← hlines, List.getElem?_eq_getElem hpos] at hlookup
    refine ⟨_, ?_, bulletsOf_spec hmd (List.getElem_mem hpos)⟩
    unfold claimLine
    rw [hlookup]
    exact max_eq_right (Nat.le_add_left 1 _)
  set body := (split md raw).body with hbody
  set stop := ownEnd md body sec with hstopdef
  set last := min stop (fileLines body).length with hlast
  have htake : (fileLines body).take stop = (fileLines body).take last := by
    rw [hlast, List.take_eq_take_iff]
    omega
  have hpage : fileLines body = (fileLines (_normalize raw)).drop (split md raw).body_offset := by
    rw [haligned]
    exact fileLines_body md raw
  have hlength : (fileLines body).length = (fileLines (_normalize raw)).length - (split md raw).body_offset := by
    rw [hpage, List.length_drop]
  obtain ⟨first, hfirst⟩ := List.exists_mem_of_ne_nil _ hne
  obtain ⟨b, -, hb, hbstop, hblength⟩ := hbullet first hfirst
  -- the section's own lines, in the body and in the page
  have htext : ((fileLines body).take stop).drop sec.line_start =
      ((fileLines (_normalize raw)).take ((split md raw).body_offset + last)).drop (node.line - 1) := by
    have hstart : node.line - 1 = (split md raw).body_offset + sec.line_start := by omega
    have hcut : ((fileLines (_normalize raw)).take ((split md raw).body_offset + last)).drop (split md raw).body_offset =
        ((fileLines (_normalize raw)).drop (split md raw).body_offset).take last := by
      rw [List.drop_take, Nat.add_sub_cancel_left]
    rw [htake, hpage, hstart, ← List.drop_drop, hcut]
  have hbetween : (((keptLines body).take stop).drop sec.line_start).flatten =
      between (_normalize raw) node.line ((split md raw).body_offset + last) := by
    rw [take_keptLines hhead, htext]
    rfl
  have hstrays : strays (between (_normalize raw) node.line ((split md raw).body_offset + last)) = 0 := by
    have hsplit : ((fileLines body).take stop).flatten = (((fileLines body).take stop).take sec.line_start).flatten ++
        (((fileLines body).take stop).drop sec.line_start).flatten := by
      rw [← List.flatten_append, List.take_append_drop]
    rw [hsplit, htext] at hhead
    have hle := strays_append (((fileLines body).take stop).take sec.line_start).flatten
      (between (_normalize raw) node.line ((split md raw).body_offset + last))
    unfold between at hle ⊢
    omega
  have hfrom : 1 ≤ node.line := by omega
  have hupTo : node.line ≤ (split md raw).body_offset + last := by omega
  have hwithin : (split md raw).body_offset + last ≤ (fileLines (_normalize raw)).length := by omega
  obtain ⟨hcarries, hcut⟩ := carries_part node.path digest hfrom hupTo hwithin hstrays
  have hend : node.line + max 1 (splitlines (between (_normalize raw) node.line ((split md raw).body_offset + last))).length - 1 =
      (split md raw).body_offset + last := by
    rw [length_splitlines, hstrays, hcut, ← htext, List.length_drop, List.length_take]
    omega
  refine ⟨⟨_, node.id, hcarries.bounded⟩, ?_, hcarries, rfl, rfl, fun bullet hmem => ?_⟩
  · unfold bookContext
    rw [hat]
    dsimp only
    rw [← hbody, ← hstopdef, hbetween, hend]
    exact dif_pos hcarries.bounded
  · obtain ⟨b', hb', hge, hlt, hlt'⟩ := hbullet bullet hmem
    rw [hb']
    dsimp only
    omega

end Page

/-! ## Windows -/

section Windows

variable {file : Text} {ctx : BookContext} {context_lines : ℕ} {pairs : List (BookContext × ℕ)}
  {by_node : List (BookContext × List ℕ)}

/-- The lines that an excerpt carries are on the file. -/
theorem CarriesLines.end_le {e : FileExcerpt} (h : CarriesLines file e) : e.end_line ≤ (fileLines file).length := by
  have hspan := h.bounded.span
  have hpos := lineCount_pos e.text
  have hcount := lineCount_eq h.bounded.text
  have hlines : fileLines e.text = ((fileLines file).take e.end_line).drop (e.start_line - 1) := by
    rw [h.text]
    exact Lines.lines_part _ _ _
  have hstart := h.bounded.start
  rw [hlines, List.length_drop, List.length_take] at hcount
  omega

/-- **Lines between two lines of an excerpt** are cut out of it. -/
theorem cut_excerpt {e : FileExcerpt} (h : CarriesLines file e) {start stop : ℕ} (hstart : e.start_line ≤ start)
    (hstop : stop ≤ e.end_line) :
    (((keptLines e.text).drop (start - e.start_line)).take (stop + 1 - start)).flatten = between file start stop := by
  have hlines : fileLines e.text = ((fileLines file).take e.end_line).drop (e.start_line - 1) := by
    rw [h.text]
    exact Lines.lines_part _ _ _
  have hfirst := h.bounded.start
  have hdrop : e.start_line - 1 + (start - e.start_line) = start - 1 := by omega
  have hlen : min (stop + 1 - start) (e.end_line - (start - 1)) = stop - (start - 1) := by omega
  unfold between
  rw [keptLines_eq h.plain, hlines, List.drop_drop, hdrop, List.drop_take, List.take_take, hlen, List.drop_take]

/-- **A window carries its lines**, and they are around the ones that it is made for. -/
theorem windowed_spec (context_lines : ℕ) (h : CarriesLines file ctx.toFileExcerpt) {lines : List ℕ} (hne : lines ≠ [])
    (hlines : ∀ l ∈ lines, ctx.start_line ≤ l ∧ l ≤ ctx.end_line) :
    ∃ w, windowed context_lines ctx lines = .ok w ∧ CarriesLines file w.toFileExcerpt ∧ w.node = ctx.node ∧
      ∀ l ∈ lines, w.start_line ≤ l ∧ l ≤ w.end_line := by
  cases hmin : lines.min? with
  | none => exact absurd (List.min?_eq_none_iff.1 hmin) hne
  | some low =>
    cases hmax : lines.max? with
    | none => exact absurd (List.max?_eq_none_iff.1 hmax) hne
    | some high =>
      obtain ⟨hlow, hleast⟩ := List.min?_eq_some_iff.1 hmin
      obtain ⟨hhigh, hgreatest⟩ := List.max?_eq_some_iff.1 hmax
      have hlow' := hlines low hlow
      have hhigh' := hlines high hhigh
      have horder := hleast high hhigh
      unfold windowed
      dsimp only
      rw [hmin, hmax, Option.getD_some, Option.getD_some]
      set start := max ctx.start_line (low - context_lines) with hstart
      set stop := min ctx.end_line (high + context_lines) with hstop
      have haround : ∀ l ∈ lines, start ≤ l ∧ l ≤ stop := by
        intro l hl
        have hl' := hlines l hl
        have hge := hleast l hl
        have hle := hgreatest l hl
        omega
      by_cases hsame : start = ctx.start_line ∧ stop = ctx.end_line
      · rw [if_pos hsame]
        exact ⟨ctx, rfl, h, rfl, fun l hl => hsame.1 ▸ hsame.2 ▸ haround l hl⟩
      · have hcut := cut_excerpt h (by omega : ctx.start_line ≤ start) (by omega : stop ≤ ctx.end_line)
        have hfirst := h.bounded.start
        have hend := h.end_le
        have hstrays : strays (between file start stop) = 0 := by
          -- it is a part of the context's text
          have hpart : ctx.text = ((keptLines ctx.text).take (start - ctx.start_line)).flatten ++
              (((keptLines ctx.text).drop (start - ctx.start_line)).take (stop + 1 - start)).flatten ++
              (((keptLines ctx.text).drop (start - ctx.start_line)).drop (stop + 1 - start)).flatten := by
            rw [List.append_assoc, ← List.flatten_append, List.take_append_drop, ← List.flatten_append,
              List.take_append_drop, keptLines_eq h.plain]
            exact (Lines.flatten_lines _ _).symm
          have hplain := h.plain
          rw [hpart, hcut] at hplain
          have hleft := strays_append_left (((keptLines ctx.text).take (start - ctx.start_line)).flatten ++ between file start stop)
            (((keptLines ctx.text).drop (start - ctx.start_line)).drop (stop + 1 - start)).flatten
          have hright := strays_append ((keptLines ctx.text).take (start - ctx.start_line)).flatten (between file start stop)
          omega
        obtain ⟨hcarries, -⟩ := carries_part ctx.path ctx.source_digest (by omega : 1 ≤ start) (by omega : start ≤ stop)
          (by omega : stop ≤ (fileLines file).length) hstrays
        have hcut' : (((keptLinesFrom [] ctx.text).drop (start - ctx.start_line)).take (stop + 1 - start)).flatten =
            between file start stop := hcut
        rw [if_neg hsame, hcut']
        exact ⟨⟨_, ctx.node, hcarries.bounded⟩, dif_pos hcarries.bounded, hcarries, rfl, haround⟩

/-- **The contexts of some claims by their nodes**: each node once, with its first context and all its lines. -/
structure Noted (pairs : List (BookContext × ℕ)) (by_node : List (BookContext × List ℕ)) : Prop where
  once : (by_node.map fun entry => entry.1.node).Nodup
  first : ∀ entry ∈ by_node, entry.2 ≠ [] ∧ ∃ l, (entry.1, l) ∈ pairs
  lines : ∀ entry ∈ by_node, ∀ l ∈ entry.2, ∃ ctx, (ctx, l) ∈ pairs ∧ ctx.node = entry.1.node
  all : ∀ pair ∈ pairs, ∃ entry ∈ by_node, entry.1.node = pair.1.node ∧ pair.2 ∈ entry.2

theorem Noted.snoc (h : Noted pairs by_node) (found : BookContext × ℕ) : Noted (pairs ++ [found]) (noteContext by_node found) := by
  have hmore : ∀ pair ∈ pairs, pair ∈ pairs ++ [found] := fun pair hpair => List.mem_append_left _ hpair
  have hself : found ∈ pairs ++ [found] := List.mem_append_right _ List.mem_cons_self
  unfold noteContext
  split
  · next hany =>
    -- the node is known, and gets one line more
    obtain ⟨known, hknown, hnode⟩ := List.any_eq_true.1 hany
    have hnode := of_decide_eq_true hnode
    refine ⟨?_, fun entry hentry => ?_, fun entry hentry l hl => ?_, fun pair hpair => ?_⟩
    · have hnodes : (by_node.map fun entry => if entry.1.node = found.1.node then (entry.1, entry.2 ++ [found.2]) else entry).map
          (fun entry => entry.1.node) = by_node.map fun entry => entry.1.node := by
        rw [List.map_map]
        refine List.map_congr_left fun entry _ => ?_
        dsimp only [Function.comp]
        split
        · rfl
        · rfl
      rw [hnodes]
      exact h.once
    · obtain ⟨old, hold, rfl⟩ := List.mem_map.1 hentry
      obtain ⟨hne, l, hl⟩ := h.first old hold
      split
      · exact ⟨List.append_ne_nil_of_left_ne_nil hne _, l, hmore _ hl⟩
      · exact ⟨hne, l, hmore _ hl⟩
    · obtain ⟨old, hold, rfl⟩ := List.mem_map.1 hentry
      split at hl
      · next heq =>
        rw [if_pos heq]
        rcases List.mem_append.1 hl with hl | hl
        · obtain ⟨ctx, hctx, hsame⟩ := h.lines old hold l hl
          exact ⟨ctx, hmore _ hctx, hsame⟩
        · obtain rfl := List.mem_singleton.1 hl
          exact ⟨found.1, hself, heq.symm⟩
      · next hne =>
        rw [if_neg hne]
        obtain ⟨ctx, hctx, hsame⟩ := h.lines old hold l hl
        exact ⟨ctx, hmore _ hctx, hsame⟩
    · rcases List.mem_append.1 hpair with hpair | hpair
      · obtain ⟨entry, hentry, heq, hl⟩ := h.all pair hpair
        refine ⟨_, List.mem_map_of_mem hentry, ?_⟩
        split
        · exact ⟨heq, List.mem_append_left _ hl⟩
        · exact ⟨heq, hl⟩
      · obtain rfl := List.mem_singleton.1 hpair
        refine ⟨_, List.mem_map_of_mem hknown, ?_⟩
        rw [if_pos hnode]
        exact ⟨hnode, List.mem_append_right _ List.mem_cons_self⟩
  · next hnone =>
    have hnew : ∀ entry ∈ by_node, entry.1.node ≠ found.1.node := fun entry hentry heq =>
      hnone (List.any_eq_true.2 ⟨entry, hentry, decide_eq_true heq⟩)
    refine ⟨?_, fun entry hentry => ?_, fun entry hentry l hl => ?_, fun pair hpair => ?_⟩
    · rw [List.map_append, List.nodup_append]
      refine ⟨h.once, List.nodup_singleton _, fun a ha b hb heq => ?_⟩
      obtain ⟨entry, hentry, rfl⟩ := List.mem_map.1 ha
      exact hnew entry hentry (heq.trans (List.mem_singleton.1 hb))
    · rcases List.mem_append.1 hentry with hentry | hentry
      · obtain ⟨hne, l, hl⟩ := h.first entry hentry
        exact ⟨hne, l, hmore _ hl⟩
      · obtain rfl := List.mem_singleton.1 hentry
        exact ⟨List.cons_ne_nil _ _, found.2, hself⟩
    · rcases List.mem_append.1 hentry with hentry | hentry
      · obtain ⟨ctx, hctx, hsame⟩ := h.lines entry hentry l hl
        exact ⟨ctx, hmore _ hctx, hsame⟩
      · obtain rfl := List.mem_singleton.1 hentry
        obtain rfl := List.mem_singleton.1 hl
        exact ⟨found.1, hself, rfl⟩
    · rcases List.mem_append.1 hpair with hpair | hpair
      · obtain ⟨entry, hentry, hin⟩ := h.all pair hpair
        exact ⟨entry, List.mem_append_left _ hentry, hin⟩
      · obtain rfl := List.mem_singleton.1 hpair
        exact ⟨_, List.mem_append_right _ List.mem_cons_self, rfl, List.mem_cons_self⟩

theorem noted_foldl (pairs : List (BookContext × ℕ)) : Noted pairs (pairs.foldl noteContext []) := by
  have hall : ∀ (rest seen : List (BookContext × ℕ)) (by_node : List (BookContext × List ℕ)), Noted seen by_node →
      Noted (seen ++ rest) (rest.foldl noteContext by_node) := by
    intro rest
    induction rest with
    | nil => exact fun seen by_node h => (List.append_nil seen).symm ▸ h
    | cons found rest ih =>
      intro seen by_node h
      have hnext := ih (seen ++ [found]) _ (h.snoc found)
      rwa [List.append_assoc, List.singleton_append] at hnext
  exact hall pairs [] [] ⟨List.nodup_nil, fun _ h => absurd h List.not_mem_nil, fun _ h => absurd h List.not_mem_nil,
    fun _ h => absurd h List.not_mem_nil⟩

end Windows

/-! ## The book -/

section Book

variable {md : Blocks} {pages : Text → Text × Text} {node : UINode} {ctx : BookContext} {nodes : List UINode}
  {claims : List BookClaim} {scope : Text}

/-- A page on which a node's own lines are those of the file: its fence is counted right, and nothing but newlines
ends a line before the end of the node. -/
def Counted (md : Blocks) (pages : Text → Text × Text) (node : UINode) : Prop :=
  Aligned md (pages node.path).1 ∧ Plain md (pages node.path).1 node.line

/-- A claim of a node has the node's context, and the line of a bullet. -/
theorem bookClaims_spec {claim : BookClaim} : ∀ {bullets : List (Text × Text × ℕ)} {counts : List Text},
    claim ∈ bookClaims node ctx counts bullets →
      claim.node = node.id ∧ claim.context = [ctx] ∧ ∃ bullet ∈ bullets, claim.line = claimLine node bullet.2.2 := by
  intro bullets
  induction bullets with
  | nil => exact fun h => absurd h List.not_mem_nil
  | cons bullet rest ih =>
    intro counts h
    have hlater : ∀ {counts : List Text}, claim ∈ bookClaims node ctx counts rest →
        claim.node = node.id ∧ claim.context = [ctx] ∧ ∃ b ∈ bullet :: rest, claim.line = claimLine node b.2.2 := by
      intro counts h
      obtain ⟨hnode, hcontext, b, hb, hline⟩ := ih h
      exact ⟨hnode, hcontext, b, List.mem_cons_of_mem _ hb, hline⟩
    obtain ⟨key, text, position⟩ := bullet
    unfold bookClaims at h
    split at h
    · rcases List.mem_cons.1 h with rfl | h
      · exact ⟨rfl, rfl, (key, text, position), List.mem_cons_self, rfl⟩
      · exact hlater h
    · exact hlater h

/-- **What a claim of the book is given**: its node's context, which carries its lines and the claim's own. -/
structure Given (md : Blocks) (pages : Text → Text × Text) (node : UINode) (claim : BookClaim) (ctx : BookContext) : Prop where
  made : bookContext md (split md (pages node.path).1) (pages node.path).2 node = .ok ctx
  context : claim.context = [ctx]
  owner : claim.node = node.id
  same : ctx.node = node.id
  carries : CarriesLines (_normalize (pages node.path).1) ctx.toFileExcerpt
  heading : ctx.start_line = node.line
  line : ctx.start_line ≤ claim.line ∧ claim.line ≤ ctx.end_line

theorem claimsOfNode_spec (hmd : md.Lawful) (hnode : node.bullet_order ≠ [] → OnPage md (pages node.path).1 node)
    (hcounted : node.bullet_order.any (isNormative node) = true → Counted md pages node) :
    ∃ claims, claimsOfNode md pages node = .ok claims ∧ ∀ claim ∈ claims, ∃ ctx, Given md pages node claim ctx := by
  cases hany : node.bullet_order.any (isNormative node) with
  | false =>
    refine ⟨[], ?_, fun claim h => absurd h List.not_mem_nil⟩
    unfold claimsOfNode
    rw [hany]
    rfl
  | true =>
    have hne : node.bullet_order ≠ [] := by
      intro hnil
      rw [hnil] at hany
      exact absurd hany Bool.false_ne_true
    obtain ⟨ctx, hmade, hcarries, hsame, hheading, hlines⟩ :=
      bookContext_spec (pages node.path).2 hmd (hnode hne) hne (hcounted hany).1 (hcounted hany).2
    refine ⟨bookClaims node ctx [] node.bullet_order, ?_, fun claim hclaim => ?_⟩
    · unfold claimsOfNode
      rw [hany, hmade]
      rfl
    · obtain ⟨hclaimNode, hcontext, bullet, hbullet, hline⟩ := bookClaims_spec hclaim
      exact ⟨ctx, hmade, hcontext, hclaimNode, hsame, hcarries, hheading, hline ▸ hlines bullet hbullet⟩

/-- The claims of the book, where every page in scope is counted right. -/
theorem extract_book_spec (hmd : md.Lawful)
    (hloaded : ∀ node ∈ nodes, node.bullet_order ≠ [] → OnPage md (pages node.path).1 node)
    (hcounted : ∀ node ∈ nodes, scope.isPrefixOf node.path = true → node.bullet_order.any (isNormative node) = true →
      Counted md pages node) :
    ∃ claims, extract_book md pages nodes scope = .ok claims ∧
      ∀ claim ∈ claims, ∃ node ∈ nodes, ∃ ctx, Given md pages node claim ctx := by
  set visited := (nodes.insertionSort fun a b => a.id ≤ b.id).filter fun node => scope.isPrefixOf node.path with hvisited
  have hmem : ∀ node ∈ visited, node ∈ nodes ∧ scope.isPrefixOf node.path = true := by
    intro node hnode
    obtain ⟨hnode, hscope⟩ := List.mem_filter.1 hnode
    exact ⟨(List.mem_insertionSort _).1 hnode, hscope⟩
  have hspec : ∀ node ∈ visited, ∃ claims, claimsOfNode md pages node = .ok claims ∧
      ∀ claim ∈ claims, ∃ ctx, Given md pages node claim ctx := by
    intro node hnode
    obtain ⟨hnode, hscope⟩ := hmem node hnode
    exact claimsOfNode_spec hmd (hloaded node hnode) (hcounted node hnode hscope)
  obtain ⟨found, hfound⟩ := Checks.mapM_ok fun node hnode => (hspec node hnode).imp fun _ h => h.1
  refine ⟨found.flatten, ?_, fun claim hclaim => ?_⟩
  · unfold extract_book
    dsimp only
    rw [← hvisited, hfound]
    rfl
  · obtain ⟨part, hpart, hclaim⟩ := List.mem_flatten.1 hclaim
    obtain ⟨node, hnode, hmade⟩ := exists_of_forall₂ (Checks.mapM_ok_iff.1 hfound) part hpart
    obtain ⟨claims, hclaims, hgiven⟩ := hspec node hnode
    obtain rfl := Except.ok.inj (hclaims.symm.trans hmade)
    exact ⟨node, (hmem node hnode).1, hgiven claim hclaim⟩

/-- **The windows of a chunk**, whose claims are each given a context. -/
theorem windows_spec (hids : (nodes.map (·.id)).Nodup) {chunk : List BookClaim}
    (hgiven : ∀ claim ∈ chunk, ∃ node ∈ nodes, ∃ ctx, Given md pages node claim ctx) (context_lines : ℕ) :
    ∃ windows, _windowed_book_context chunk context_lines = .ok windows ∧
      (∀ w ∈ windows, ∃ node ∈ nodes, w.node = node.id ∧ CarriesLines (_normalize (pages node.path).1) w.toFileExcerpt) ∧
      ∀ claim ∈ chunk, ∃ w ∈ windows, w.node = claim.node ∧ w.start_line ≤ claim.line ∧ claim.line ≤ w.end_line := by
  set pairs := chunk.flatMap fun claim => claim.context.map fun context => (context, claim.line) with hpairs
  have hpair : ∀ pair ∈ pairs, ∃ claim ∈ chunk, ∃ node ∈ nodes, Given md pages node claim pair.1 ∧ pair.2 = claim.line := by
    intro pair h
    obtain ⟨claim, hclaim, h⟩ := List.mem_flatMap.1 h
    obtain ⟨node, hnode, ctx, hctx⟩ := hgiven claim hclaim
    rw [hctx.context] at h
    obtain rfl := List.mem_singleton.1 h
    exact ⟨claim, hclaim, node, hnode, hctx, rfl⟩
  have hnoted := noted_foldl pairs
  -- a node's claims all have one context
  have hentry : ∀ entry ∈ pairs.foldl noteContext [], ∃ node ∈ nodes, entry.1.node = node.id ∧
      CarriesLines (_normalize (pages node.path).1) entry.1.toFileExcerpt ∧
      ∀ l ∈ entry.2, entry.1.start_line ≤ l ∧ l ≤ entry.1.end_line := by
    intro entry hentry
    obtain ⟨-, l₀, hl₀⟩ := hnoted.first entry hentry
    obtain ⟨_, -, node, hnode, hfirst, -⟩ := hpair _ hl₀
    refine ⟨node, hnode, hfirst.same, hfirst.carries, fun l hl => ?_⟩
    obtain ⟨ctx, hctx, hsame⟩ := hnoted.lines entry hentry l hl
    obtain ⟨claim, -, node', hnode', hother, hline⟩ := hpair _ hctx
    obtain rfl := eq_of_key hids hnode' hnode (hother.same.symm.trans (hsame.trans hfirst.same))
    have hctxs : ctx = entry.1 := Except.ok.inj (hother.made.symm.trans hfirst.made)
    have haround := hother.line
    rw [← hline] at haround
    rwa [← hctxs]
  have hwindow : ∀ entry ∈ pairs.foldl noteContext [], ∃ w, windowed context_lines entry.1 entry.2 = .ok w ∧
      (∃ node ∈ nodes, w.node = node.id ∧ CarriesLines (_normalize (pages node.path).1) w.toFileExcerpt) ∧
      w.node = entry.1.node ∧ ∀ l ∈ entry.2, w.start_line ≤ l ∧ l ≤ w.end_line := by
    intro entry h
    obtain ⟨node, hnode, hid, hcarries, hlines⟩ := hentry entry h
    obtain ⟨w, hw, hcarried, hsame, haround⟩ :=
      windowed_spec context_lines hcarries (hnoted.first entry h).1 hlines
    exact ⟨w, hw, ⟨node, hnode, hsame.trans hid, hcarried⟩, hsame, haround⟩
  obtain ⟨windows, hwindows⟩ := Checks.mapM_ok fun entry h => (hwindow entry h).imp fun _ hw => hw.1
  have hall := Checks.mapM_ok_iff.1 hwindows
  refine ⟨windows, hwindows, fun w hw => ?_, fun claim hclaim => ?_⟩
  · obtain ⟨entry, h, hmade⟩ := exists_of_forall₂ hall w hw
    obtain ⟨w', hw', hcarried, -⟩ := hwindow entry h
    obtain rfl := Except.ok.inj (hw'.symm.trans hmade)
    exact hcarried
  · obtain ⟨node, -, ctx, hctx⟩ := hgiven claim hclaim
    have hin : (ctx, claim.line) ∈ pairs := by
      refine List.mem_flatMap.2 ⟨claim, hclaim, ?_⟩
      rw [hctx.context]
      exact List.mem_singleton.2 rfl
    obtain ⟨entry, h, hsame, hl⟩ := hnoted.all _ hin
    obtain ⟨w, hw, hmade⟩ := exists_of_forall₂ hall.flip entry h
    obtain ⟨w', hw', -, hnode, haround⟩ := hwindow entry h
    obtain rfl := Except.ok.inj (hw'.symm.trans hmade)
    exact ⟨w', hw, hnode.trans (hsame.trans (hctx.same.trans hctx.owner.symm)), haround _ hl⟩

/-- **An excerpt carries the lines that it names**: a support excerpt just when its source has no strays; the contexts of
the book and the windows of every chunk where the pages of its claims are counted as the files are. -/
theorem excerpts_carry_lines (hmd : md.Lawful) (hids : (nodes.map (·.id)).Nodup)
    (hloaded : ∀ node ∈ nodes, node.bullet_order ≠ [] → OnPage md (pages node.path).1 node) :
    (∀ relative source source_digest, (∃ e, supportExcerpt relative source source_digest = .ok e ∧
      e.text = between source e.start_line e.end_line) ↔ strays source = 0) ∧
    ((∀ node ∈ nodes, scope.isPrefixOf node.path = true → node.bullet_order.any (isNormative node) = true →
        Counted md pages node) →
      ∃ claims, extract_book md pages nodes scope = .ok claims ∧
        (∀ claim ∈ claims, ∃ node ∈ nodes, ∃ ctx, Given md pages node claim ctx) ∧
        ∀ chunk, (∀ claim ∈ chunk, claim ∈ claims) → ∀ context_lines,
          ∃ windows, _windowed_book_context chunk context_lines = .ok windows ∧
            (∀ w ∈ windows, ∃ node ∈ nodes, w.node = node.id ∧
              CarriesLines (_normalize (pages node.path).1) w.toFileExcerpt) ∧
            ∀ claim ∈ chunk, ∃ w ∈ windows, w.node = claim.node ∧ w.start_line ≤ claim.line ∧ claim.line ≤ w.end_line) := by
  refine ⟨support_iff, fun hcounted => ?_⟩
  obtain ⟨claims, hclaims, hgiven⟩ := extract_book_spec hmd hloaded hcounted
  exact ⟨claims, hclaims, hgiven, fun chunk hchunk context_lines =>
    windows_spec hids (fun claim hclaim => hgiven claim (hchunk claim hclaim)) context_lines⟩

/-- A form feed between two lines of a source, and the audit of its repository fails. -/
theorem support_form_feed : strays "a = 1\n\x0cb = 2\n".toList ≠ 0 ∧
    ∀ e, supportExcerpt "a.py".toList "a = 1\n\x0cb = 2\n".toList "d".toList ≠ .ok e := by
  have hstrays : strays "a = 1\n\x0cb = 2\n".toList ≠ 0 := by decide
  refine ⟨hstrays, fun e he => ?_⟩
  have hspans : ¬FileExcerpt.Spans ⟨"a.py".toList, 1, max 1 (splitlines "a = 1\n\x0cb = 2\n".toList).length,
      "a = 1\n\x0cb = 2\n".toList, "d".toList⟩ := by decide
  unfold supportExcerpt at he
  rw [if_neg hspans] at he
  cases he

/-- A parser of pages whose headings begin with `#` and whose list items begin with `-`. -/
def marked : Blocks where
  front_matter _ := none
  headings text := ((text.splitOn '\n').zipIdx.filter fun row => ['#'].isPrefixOf row.1).map fun row => ⟨1, row.2⟩
  bullets text := ((text.splitOn '\n').zipIdx.filter fun row => ['-'].isPrefixOf row.1).map fun row => row.2

theorem marked_lawful : marked.Lawful := by
  refine ⟨fun text => ?_, fun text b hb => ?_⟩
  · have hidx : ((text.splitOn '\n').zipIdx.map fun row => row.2).Pairwise (· < ·) := by
      rw [List.zipIdx_map_snd]
      exact List.pairwise_lt_range'
    have hsub := (List.filter_sublist (p := fun row : Text × ℕ => ['#'].isPrefixOf row.1)
      (l := (text.splitOn '\n').zipIdx)).map fun row => row.2
    have hmap := hidx.sublist hsub
    unfold marked
    rw [List.map_map]
    exact hmap
  · obtain ⟨row, hrow, rfl⟩ := List.mem_map.1 hb
    obtain ⟨hrow, hdash⟩ := List.mem_filter.1 hrow
    refine ⟨row.1, List.mem_zipIdx_iff_getElem?.1 hrow, ?_⟩
    intro hnil
    rw [hnil] at hdash
    cases hdash

/-- The text of a page with one node, and the node. -/
def onePage : Text := "# Login\n- text: Sign in\n".toList

def oneNode : UINode :=
  { id := "login.md".toList, path := "login.md".toList, title := "Login".toList, line := 1
    bullet_order := [("text".toList, "Sign in".toList, 0)], bullet_lines := [(0, 2)], citations := []
    normative_keys := ["text".toList] }

theorem excerpts_carry_lines_page :
    ∃ claims, extract_book marked (fun _ => (onePage, [])) [oneNode] [] = .ok claims ∧
      ∀ claim ∈ claims, ∃ node ∈ [oneNode], ∃ ctx, Given marked (fun _ => (onePage, [])) node claim ctx := by
  have hat : sectionAt marked (split marked onePage) 1 = some ⟨1, 0, 3⟩ := by with_unfolding_all decide
  have hloaded : ∀ node ∈ [oneNode], node.bullet_order ≠ [] → OnPage marked onePage node := by
    intro node hnode _
    obtain rfl := List.mem_singleton.1 hnode
    refine ⟨⟨1, 0, 3⟩, ?_, ?_, ?_, ?_⟩
    · with_unfolding_all decide
    · with_unfolding_all decide
    · with_unfolding_all decide
    · with_unfolding_all decide
  have hcounted : ∀ node ∈ [oneNode], List.isPrefixOf [] node.path = true → node.bullet_order.any (isNormative node) = true →
      Counted marked (fun _ => (onePage, [])) node := by
    intro node hnode _ _
    obtain rfl := List.mem_singleton.1 hnode
    refine ⟨?_, fun sec hsec => ?_⟩
    · unfold Aligned
      with_unfolding_all decide
    · obtain rfl := Option.some.inj (hat.symm.trans hsec)
      with_unfolding_all decide
  have hids : ([oneNode].map (·.id)).Nodup := List.nodup_singleton _
  obtain ⟨claims, hclaims, hgiven, -⟩ := (excerpts_carry_lines marked_lawful hids hloaded).2 hcounted
  exact ⟨claims, hclaims, hgiven⟩

end Book

end Stablemate.Behavior
