import Mathlib.Data.List.DropRight
import Stablemate.Model.Dotenv
import Stablemate.Proof.Text

/-!
# What a masked dotenv shows

* `Head`: what stands before the value of an assignment.
* `mask_line`: **a line that assigns is masked up to its value**, whatever the spelling of the line.
* `printed_spec`: every line is printed in its place, with the verdict of its own assignment.
* `storing_spec`: the requests of an import are those of its keys, up to the first that is refused.
* `shown_and_stored`: **what `env show` prints and `env import` stores**.
-/

namespace Stablemate.Dotenv

open Text (isSpace strip splitlines)
open Saddlebag (isAlpha isDigit spelled partition validate_name parse_tag)

variable {raw text key value rest : Text} {line : Line} {lines : List Line} {verdicts : List Bool}

/-! ## One line -/

/-- **What stands before the value**: white space, `export` perhaps, the key, and the `=`. -/
structure Head (key head : Text) : Prop where
  parts : ∃ margin export_ gap pad : Text, head = margin ++ (export_ ++ (key ++ (gap ++ '=' :: pad))) ∧
    (∀ c ∈ margin, isSpace c = true) ∧ (∀ c ∈ gap, isSpace c = true) ∧ (∀ c ∈ pad, isSpace c = true) ∧
    (export_ = [] ∨ ∃ blanks, blanks ≠ [] ∧ (∀ c ∈ blanks, isSpace c = true) ∧ export_ = "export".toList ++ blanks)

/-- The `=` is behind the keyword, so what follows the text does not change what is behind the keyword. -/
theorem afterExport_append (h : '=' ∈ text) (b : Text) : afterExport (text ++ b) = (afterExport text).map (· ++ b) := by
  have hsplit := List.take_append_drop 6 text
  have hword : text.take 6 = "export".toList → '=' ∈ text.drop 6 := by
    intro htake
    rw [← hsplit, htake, List.mem_append] at h
    exact h.resolve_left (by decide)
  by_cases htake : text.take 6 = "export".toList
  · have hrest := hword htake
    have hlen : 6 ≤ text.length := by
      have hlength := congrArg List.length htake
      rw [List.length_take] at hlength
      have hsix : "export".toList.length = 6 := by decide
      omega
    have htake' : (text ++ b).take 6 = text.take 6 := List.take_append_of_le_length hlen
    have hdrop' : (text ++ b).drop 6 = text.drop 6 ++ b := List.drop_append_of_le_length hlen
    have hne : (text.drop 6).dropWhile isSpace ≠ [] := by
      intro hnil
      exact absurd (List.dropWhile_eq_nil_iff.1 hnil _ hrest) (by decide)
    have hhead : (text.drop 6 ++ b).head? = (text.drop 6).head? :=
      List.head?_append_of_ne_nil _ (List.ne_nil_of_mem hrest)
    have hlong : (text.drop 6 ++ b).dropWhile isSpace = (text.drop 6).dropWhile isSpace ++ b := by
      rw [List.dropWhile_append, if_neg (by simpa [List.isEmpty_iff] using hne)]
    unfold afterExport
    rw [htake', hdrop', hhead, hlong]
    split
    · rfl
    · rfl
  · have hno : (text ++ b).take 6 ≠ "export".toList := by
      intro hlong
      rw [List.take_append] at hlong
      by_cases hlen : 6 ≤ text.length
      · rw [Nat.sub_eq_zero_of_le hlen, List.take_zero, List.append_nil] at hlong
        exact htake hlong
      · have hin : '=' ∈ "export".toList := by
          rw [← hlong, List.take_of_length_le (by omega)]
          exact List.mem_append_left _ h
        exact absurd hin (by decide)
    unfold afterExport
    rw [if_neg fun hboth => hno hboth.1, if_neg fun hboth => htake hboth.1]
    rfl

/-- What is behind the keyword, which white space parts from it. -/
theorem afterExport_some {t : Text} (h : afterExport text = some t) :
    ∃ blanks, blanks ≠ [] ∧ (∀ c ∈ blanks, isSpace c = true) ∧ text = "export".toList ++ blanks ++ t ∧
      t = (text.drop 6).dropWhile isSpace := by
  unfold afterExport at h
  split at h
  · next hboth =>
    obtain rfl := Option.some.inj h
    refine ⟨(text.drop 6).takeWhile isSpace, ?_, fun c hc => List.mem_takeWhile_imp hc, ?_, rfl⟩
    · cases hdrop : text.drop 6 with
      | nil =>
        rw [hdrop] at hboth
        exact absurd hboth.2 Bool.false_ne_true
      | cons c cs =>
        rw [hdrop] at hboth
        have hc : isSpace c = true := hboth.2
        rw [List.takeWhile_cons_of_pos hc]
        exact List.cons_ne_nil _ _
    · rw [← hboth.1, List.append_assoc, List.takeWhile_append_dropWhile, List.take_append_drop]
  · cases h

theorem afterKey_eq {gap pad : Text} (hgap : ∀ c ∈ gap, isSpace c = true) (hpad : ∀ c ∈ pad, isSpace c = true)
    (hrest : rest.dropWhile isSpace = rest) : afterKey key (key ++ (gap ++ '=' :: (pad ++ rest))) = some rest := by
  have hdrop : ((key ++ (gap ++ '=' :: (pad ++ rest))).drop key.length).dropWhile isSpace = '=' :: (pad ++ rest) := by
    rw [List.drop_left, List.dropWhile_append_of_pos hgap, List.dropWhile_cons_of_neg (by decide)]
  have hlead : key.isPrefixOf (key ++ (gap ++ '=' :: (pad ++ rest))) = true :=
    List.isPrefixOf_iff_prefix.2 (List.prefix_append _ _)
  unfold afterKey
  rw [hdrop]
  dsimp only
  rw [if_pos ⟨hlead, rfl⟩, List.drop_one, List.tail_cons, List.dropWhile_append_of_pos hpad, hrest]

/-- The two sides of a separator. -/
theorem partition_some (h : (partition '=' text).2.1 = true) :
    text = (partition '=' text).1 ++ '=' :: (partition '=' text).2.2 := by
  have hmem : '=' ∈ text := by simpa [partition] using h
  have hsplit := List.takeWhile_append_dropWhile (p := (· ≠ '=')) (l := text)
  unfold partition
  dsimp only
  cases hdrop : text.dropWhile (· ≠ '=') with
  | nil => exact absurd (List.dropWhile_eq_nil_iff.1 hdrop '=' hmem) (by simp)
  | cons c cs =>
    have hhead := List.head?_dropWhile_not (· ≠ '=') text
    rw [hdrop] at hhead
    have hc : c = '=' := by simpa using hhead
    rw [hdrop, hc] at hsplit
    exact hsplit.symm

/-- A text whose last white space is cut is that text and the white space. -/
theorem rstrip_split (h : Text.rstrip text ≠ []) : ∃ blanks, (∀ c ∈ blanks, isSpace c = true) ∧ text = Text.rstrip text ++ blanks := by
  rcases Text.rstrip_eq text with ⟨hnil, -⟩ | ⟨front, d, blanks, -, hblanks, htext, hstrip⟩
  · exact absurd hnil h
  · refine ⟨blanks, hblanks, ?_⟩
    rw [hstrip, List.append_assoc, List.singleton_append]
    exact htext

theorem dropWhile_strip (raw : Text) : (strip raw).dropWhile isSpace = strip raw := by
  rcases Text.strip_eq raw with hnil | ⟨c, rest, -, -, hfirst, hc, -⟩
  · rw [hnil]
    rfl
  · rw [hfirst, List.dropWhile_cons_of_neg (by simp [hc])]

theorem dropWhile_of_append {a b : Text} (h : (a ++ b).dropWhile isSpace = a ++ b) (hne : a ≠ []) : a.dropWhile isSpace = a := by
  cases a with
  | nil => exact absurd rfl hne
  | cons c cs =>
    have hhead := List.head?_dropWhile_not isSpace (c :: cs ++ b)
    rw [h] at hhead
    have hc : isSpace c = false := hhead
    rw [List.dropWhile_cons_of_neg (by simp [hc])]

/-- The key is what is in front of the `=`, up to white space. -/
theorem key_split (hhead : text.dropWhile isSpace = text) (hsep : (partition '=' text).2.1 = true)
    (hkey : isKey (strip (partition '=' text).1) = true) :
    ∃ gap, (∀ c ∈ gap, isSpace c = true) ∧
      text = strip (partition '=' text).1 ++ (gap ++ '=' :: (partition '=' text).2.2) := by
  have hsplit := partition_some hsep
  set pre := (partition '=' text).1
  have hpre : pre ≠ [] := by
    intro hnil
    rw [hnil] at hkey
    exact absurd hkey (by decide)
  have hstrip : strip pre = Text.rstrip pre := by
    rw [hsplit] at hhead
    rw [strip, dropWhile_of_append hhead hpre]
  have hne : Text.rstrip pre ≠ [] := by
    intro hnil
    rw [hstrip, hnil] at hkey
    exact absurd hkey (by decide)
  obtain ⟨gap, hgap, hpreSplit⟩ := rstrip_split hne
  refine ⟨gap, hgap, ?_⟩
  rw [← List.append_assoc, hstrip, ← hpreSplit]
  exact hsplit

/-- **A line that assigns is masked up to its value.** -/
theorem mask_line (h : assignment raw = some (key, value)) :
    ∃ head rest, raw = head ++ rest ∧ Head key head ∧ value = unquote (strip rest) ∧ mask (_line raw) = head ++ MARK := by
  have hfound := h
  unfold assignment at hfound
  dsimp only at hfound
  set b := raw.dropWhile isSpace with hb
  set body := (afterExport (strip raw)).getD (strip raw) with hbody
  set pre := (partition '=' body).1 with hpre
  set tail := (partition '=' body).2.2 with htail
  split at hfound
  · cases hfound
  · next hshown =>
    split at hfound
    · cases hfound
    · next hassigns =>
      simp only [Bool.or_eq_true, Bool.not_eq_true', not_or, Bool.not_eq_false] at hassigns
      obtain ⟨hsep, hkey⟩ := hassigns
      obtain ⟨rfl, rfl⟩ := Prod.mk.inj (Option.some.inj hfound)
      have hne : strip raw ≠ [] := fun hnil => hshown (.inl hnil)
      have hbne : Text.rstrip b ≠ [] := hne
      obtain ⟨blanks, hblanks, hbsplit⟩ := rstrip_split hbne
      have hbodyHead : body.dropWhile isSpace = body := by
        cases hexport : afterExport (strip raw) with
        | none =>
          rw [hbody, hexport]
          exact dropWhile_strip raw
        | some t =>
          obtain ⟨-, -, -, -, ht⟩ := afterExport_some hexport
          rw [hbody, hexport, Option.getD_some, ht]
          exact List.dropWhile_idempotent _ _
      obtain ⟨gap, hgap, hkeySplit⟩ := key_split hbodyHead hsep hkey
      rw [← hpre, ← htail] at hkeySplit
      set key := strip pre with hkeyEq
      set pad := (tail ++ blanks).takeWhile isSpace with hpad
      set rest := (tail ++ blanks).dropWhile isSpace with hrest
      have hpadBlank : ∀ c ∈ pad, isSpace c = true := fun c hc => List.mem_takeWhile_imp hc
      have hrestSplit : tail ++ blanks = pad ++ rest := List.takeWhile_append_dropWhile.symm
      have hlong : body ++ blanks = key ++ (gap ++ '=' :: (pad ++ rest)) := by
        rw [← hrestSplit, hkeySplit]
        simp
      have hvalue : strip tail = strip rest := by
        have hleft : strip ([] ++ tail ++ blanks) = strip tail :=
          Text.strip_between (fun c hc => absurd hc List.not_mem_nil) hblanks
        have hright : strip (pad ++ rest ++ []) = strip rest :=
          Text.strip_between hpadBlank fun c hc => absurd hc List.not_mem_nil
        rw [List.nil_append, hrestSplit] at hleft
        rw [List.append_nil] at hright
        exact hleft.symm.trans hright
      have hfoundRest : afterKey key (key ++ (gap ++ '=' :: (pad ++ rest))) = some rest :=
        afterKey_eq hgap hpadBlank (List.dropWhile_idempotent isSpace (tail ++ blanks))
      rw [← hlong] at hfoundRest
      obtain ⟨export_, hexported, hbEq, hmatch⟩ : ∃ export_ : Text,
          (export_ = [] ∨ ∃ bs, bs ≠ [] ∧ (∀ c ∈ bs, isSpace c = true) ∧ export_ = "export".toList ++ bs) ∧
          b = export_ ++ (body ++ blanks) ∧ ((afterExport b).bind (afterKey key)).or (afterKey key b) = some rest := by
        have hmem : '=' ∈ body := by
          rw [hkeySplit]
          exact List.mem_append_right _ (List.mem_append_right _ List.mem_cons_self)
        cases hexport : afterExport (strip raw) with
        | none =>
          have hbody' : body = strip raw := by rw [hbody, hexport, Option.getD_none]
          rw [hbody'] at hmem hfoundRest
          have hb' : b = strip raw ++ blanks := hbsplit
          refine ⟨[], .inl rfl, by rw [hbody']; exact hb', ?_⟩
          rw [hb', afterExport_append hmem, hexport]
          exact hfoundRest
        | some t =>
          obtain ⟨bs, hbs, hbsBlank, htext, -⟩ := afterExport_some hexport
          have hbody' : body = t := by rw [hbody, hexport, Option.getD_some]
          have hb' : b = strip raw ++ blanks := hbsplit
          have hmem' : '=' ∈ strip raw := by
            rw [htext, ← hbody']
            exact List.mem_append_right _ hmem
          refine ⟨"export".toList ++ bs, .inr ⟨bs, hbs, hbsBlank, rfl⟩, ?_, ?_⟩
          · rw [hb', htext, hbody', List.append_assoc]
          · rw [hbody'] at hfoundRest
            have hbind : ((afterExport b).bind (afterKey key)) = some rest := by
              rw [hb', afterExport_append hmem', hexport]
              exact hfoundRest
            rw [hbind, Option.some_or]
      have hrawSplit : raw = raw.takeWhile isSpace ++ (export_ ++ (key ++ (gap ++ '=' :: pad))) ++ rest := by
        have hb' : raw = raw.takeWhile isSpace ++ b := List.takeWhile_append_dropWhile.symm
        rw [hbEq, hlong] at hb'
        simpa using hb'
      refine ⟨_, rest, hrawSplit, ⟨_, export_, gap, pad, rfl, fun c hc => List.mem_takeWhile_imp hc, hgap, hpadBlank, hexported⟩,
        by rw [hvalue], ?_⟩
      have hcut : raw.take (raw.length - rest.length) = raw.takeWhile isSpace ++ (export_ ++ (key ++ (gap ++ '=' :: pad))) := by
        have hlen := congrArg List.length hrawSplit
        have htake := congrArg (List.take (raw.length - rest.length)) hrawSplit
        rw [List.length_append] at hlen
        rw [htake]
        exact List.take_left' (by omega)
      unfold mask _line
      rw [h]
      dsimp only [Option.map_some]
      rw [← hb, hmatch]
      exact congrArg (· ++ MARK) hcut

/-! ## The printed lines -/

/-- The line that is printed for a line of the file. -/
def shownAs (secret : Bool) (line : Line) : Text := if secret then mask line else line.raw

theorem entries_cons_none {line : Line} (h : line.key = none) (lines : List Line) : entries (line :: lines) = entries lines := by
  unfold entries
  rw [List.filterMap_cons_none (by rw [h]; rfl)]

theorem entries_cons_some {line : Line} (h : line.key = some key) (lines : List Line) :
    entries (line :: lines) = (key, line.value.getD []) :: entries lines := by
  unfold entries
  rw [List.filterMap_cons_some (by rw [h]; rfl)]

/-- **Every line is printed in its place**, an assignment with the verdict of its own number. -/
theorem printed_spec : ∀ {lines : List Line} {verdicts : List Bool}, (entries lines).length ≤ verdicts.length →
    ∃ out, printed lines verdicts = some (out, (verdicts.take (entries lines).length).count true) ∧
      out.length = lines.length ∧ ∀ i line, lines[i]? = some line →
        (line.key = none → out[i]? = some line.raw) ∧
        ∀ key, line.key = some key → ∃ secret, verdicts[(entries (lines.take i)).length]? = some secret ∧
          out[i]? = some (shownAs secret line) := by
  intro lines
  induction lines with
  | nil =>
    intro verdicts _
    refine ⟨[], rfl, rfl, fun i line h => ?_⟩
    cases h
  | cons first lines ih =>
    intro verdicts hlen
    cases hkey : first.key with
    | none =>
      rw [entries_cons_none hkey] at hlen ⊢
      obtain ⟨out, hout, hlength, hlines⟩ := ih hlen
      refine ⟨first.raw :: out, ?_, by rw [List.length_cons, List.length_cons, hlength], fun i line h => ?_⟩
      · rw [printed_none hkey, hout]
        rfl
      · cases i with
        | zero =>
          obtain rfl := Option.some.inj h
          exact ⟨fun _ => rfl, fun key hsome => absurd (hkey.symm.trans hsome) (Option.some_ne_none key).symm⟩
        | succ i =>
          rw [List.take_succ_cons, entries_cons_none hkey]
          exact hlines i line h
    | some key =>
      rw [entries_cons_some hkey, List.length_cons] at hlen ⊢
      cases verdicts with
      | nil => exact absurd hlen (Nat.not_succ_le_zero _)
      | cons secret verdicts =>
        obtain ⟨out, hout, hlength, hlines⟩ := ih (Nat.le_of_succ_le_succ hlen)
        refine ⟨shownAs secret first :: out, ?_, by rw [List.length_cons, List.length_cons, hlength], fun i line h => ?_⟩
        · rw [printed_some hkey, hout, List.take_succ_cons]
          cases secret with
          | true => simp [shownAs]
          | false => simp [shownAs]
        · cases i with
          | zero =>
            obtain rfl := Option.some.inj h
            exact ⟨fun hnone => absurd (hkey.symm.trans hnone) (Option.some_ne_none key), fun _ _ => ⟨secret, rfl, rfl⟩⟩
          | succ i =>
            rw [List.take_succ_cons, entries_cons_some hkey]
            exact hlines i line h

/-! ## Import -/

section Import

variable {answer : List Ask → Ask → Except Text Unit} {file keys pre : Text} {tags : List Text} {named : List Text}

/-- The requests for one key. -/
def asksFor (lines : List Line) (pre : Text) (tags : List Text) (key : Text) : List Ask :=
  [.create (nameOf pre key) key tags, .set (nameOf pre key) ((valueOf lines key).getD [])]

/-- **The requests are those of the keys in order**, all of them or up to the first that is refused. -/
theorem storing_spec : ∀ {named : List Text} {asked : List Ask} {stored : List (Text × Text)} {e : Ended},
    storing answer lines pre tags named asked stored = e →
    (∃ done, e.asked = asked ++ done ∧ done <+: named.flatMap (asksFor lines pre tags) ∧
      (e.code = 0 ↔ done = named.flatMap (asksFor lines pre tags))) ∧ e.code ≤ 1 := by
  intro named
  induction named with
  | nil =>
    rintro asked stored e rfl
    exact ⟨⟨[], (List.append_nil _).symm, List.nil_prefix, iff_of_true rfl rfl⟩, Nat.zero_le 1⟩
  | cons key named ih =>
    intro asked stored e h
    have hcons : (key :: named).flatMap (asksFor lines pre tags) =
        Ask.create (nameOf pre key) key tags :: Ask.set (nameOf pre key) ((valueOf lines key).getD []) ::
          named.flatMap (asksFor lines pre tags) := rfl
    rw [hcons]
    rw [storing] at h
    split at h
    · subst h
      exact ⟨⟨[], (List.append_nil _).symm, List.nil_prefix, iff_of_false Nat.one_ne_zero (List.cons_ne_nil _ _).symm⟩, le_rfl⟩
    · split at h
      · subst h
        refine ⟨⟨[_], rfl, ⟨_, rfl⟩, iff_of_false Nat.one_ne_zero fun heq => ?_⟩, le_rfl⟩
        exact List.cons_ne_nil _ _ (List.cons.inj heq).2.symm
      · obtain ⟨⟨done, hasked, hlead, hcode⟩, hle⟩ := ih h
        refine ⟨⟨asksFor lines pre tags key ++ done, ?_, ?_, hcode.trans ?_⟩, hle⟩
        · rw [← List.append_assoc]
          exact hasked
        · exact (List.prefix_append_right_inj (asksFor lines pre tags key)).2 hlead
        · exact (List.append_right_inj (asksFor lines pre tags key)).symm

theorem wrongKey_none : ∀ {named : List Text}, wrongKey file lines named = none →
    ∀ key ∈ named, ∃ value, valueOf lines key = some value ∧ value ≠ [] := by
  intro named
  induction named with
  | nil => exact fun _ key h => absurd h List.not_mem_nil
  | cons first named ih =>
    intro h key hkey
    rw [wrongKey] at h
    split at h
    · cases h
    · next value hvalue =>
      split at h
      · cases h
      · next hne =>
        rcases List.mem_cons.1 hkey with rfl | hkey
        · exact ⟨value, hvalue, hne⟩
        · exact ih h key hkey

/-- The value of a key is that of the last line that assigns it. -/
theorem valueOf_spec (h : valueOf lines key = some value) :
    ∃ before line after, lines = before ++ line :: after ∧ line.key = some key ∧ line.value.getD [] = value ∧
      ∀ l ∈ after, l.key ≠ some key := by
  induction lines with
  | nil => cases h
  | cons first lines ih =>
    cases hlater : valueOf lines key with
    | some later =>
      have hsame : valueOf (first :: lines) key = some later := by
        unfold valueOf at hlater ⊢
        cases hkey : first.key with
        | none => rwa [entries_cons_none hkey]
        | some k => rw [entries_cons_some hkey, List.reverse_cons, List.lookup_append, hlater, Option.some_or]
      obtain rfl := Option.some.inj (hsame.symm.trans h)
      obtain ⟨before, line, after, rfl, hrest⟩ := ih hlater
      exact ⟨first :: before, line, after, rfl, hrest⟩
    | none =>
      have hnone : ∀ l ∈ lines, l.key ≠ some key := by
        intro l hl hkey
        have hmem : (key, l.value.getD []) ∈ (entries lines).reverse :=
          List.mem_reverse.2 (List.mem_filterMap.2 ⟨l, hl, by rw [hkey]; rfl⟩)
        have hne := List.lookup_eq_none_iff.1 hlater _ hmem
        exact absurd hne (by simp)
      unfold valueOf at h hlater
      cases hkey : first.key with
      | none =>
        rw [entries_cons_none hkey, hlater] at h
        cases h
      | some k =>
        rw [entries_cons_some hkey, List.reverse_cons, List.lookup_append, hlater, Option.none_or] at h
        by_cases hk : key = k
        · subst hk
          rw [List.lookup_cons_self] at h
          exact ⟨[], first, lines, rfl, hkey, Option.some.inj h, hnone⟩
        · rw [List.lookup_cons, beq_eq_false_iff_ne.2 hk] at h
          cases h

/-- A value that a key is given last. -/
def GivenLast (lines : List Line) (key value : Text) : Prop :=
  ∃ before line after, lines = before ++ line :: after ∧ line.key = some key ∧ line.value.getD [] = value ∧
    ∀ l ∈ after, l.key ≠ some key

/-- **An import asks nothing, or what its keys need.** -/
theorem import_spec {read : Except Text Text} {e : Ended} (h : cmd_env_import answer file read keys pre tags = e) :
    (e.code ≠ 0 ∧ e.asked = []) ∨ ∃ text, read = .ok text ∧ (keysOf keys).Nodup ∧
      (∀ key ∈ keysOf keys, ∃ value, valueOf (parse text) key = some value ∧ value ≠ [] ∧ GivenLast (parse text) key value) ∧
      e.asked <+: (keysOf keys).flatMap (asksFor (parse text) pre tags) ∧
      (e.code = 0 ↔ e.asked = (keysOf keys).flatMap (asksFor (parse text) pre tags)) ∧ e.code ≤ 1 := by
  have hrefused : ∀ {code : ℕ} {message : Text}, code ≠ 0 → ({ code, error := message } : Ended) = e →
      e.code ≠ 0 ∧ e.asked = [] := by
    rintro code message hcode rfl
    exact ⟨hcode, rfl⟩
  unfold cmd_env_import at h
  dsimp only at h
  split at h
  · exact .inl (hrefused (Nat.succ_ne_zero 1) h)
  · split at h
    · exact .inl (hrefused (Nat.succ_ne_zero 1) h)
    · next hnodup =>
      split at h
      · exact .inl (hrefused Nat.one_ne_zero h)
      · next text =>
        split at h
        · exact .inl (hrefused (Nat.succ_ne_zero 1) h)
        · next hkeys =>
          split at h
          · exact .inl (hrefused (Nat.succ_ne_zero 1) h)
          · split at h
            · exact .inl (hrefused (Nat.succ_ne_zero 1) h)
            · obtain ⟨⟨done, hasked, hlead, hcode⟩, hle⟩ := storing_spec h
              rw [List.nil_append] at hasked
              refine .inr ⟨text, rfl, not_not.1 hnodup, fun key hkey => ?_, hasked ▸ hlead, hasked ▸ hcode, hle⟩
              obtain ⟨value, hvalue, hne⟩ := wrongKey_none hkeys key hkey
              exact ⟨value, hvalue, hne, valueOf_spec hvalue⟩

end Import

/-! ## Both -/

/-- The last line of `env show`. -/
def summary (masked total : ℕ) : Text :=
  "masked ".toList ++ Nat.toDigits 10 masked ++ " of ".toList ++ Nat.toDigits 10 total ++ " values".toList

/-- **What `env show` prints and `env import` stores.** Every line of the file has its own, a secret assignment's up to
its value; and an import asks nothing or stores for its keys what they are given last, in order, up to the first request
that is refused. -/
theorem shown_and_stored (text : Text) (verdicts : List Bool) (hone : verdicts.length = (entries (parse text)).length) :
    (∃ out, env_show (parse text) verdicts = some (out ++ [summary (verdicts.count true) (entries (parse text)).length]) ∧
      out.length = (splitlines text).length ∧ ∀ i raw, (splitlines text)[i]? = some raw →
        (assignment raw = none → out[i]? = some raw) ∧
        ∀ key value, assignment raw = some (key, value) →
          ∃ secret, verdicts[(entries ((parse text).take i)).length]? = some secret ∧
            (secret = false → out[i]? = some raw) ∧
            (secret = true → ∃ head rest, raw = head ++ rest ∧ Head key head ∧ value = unquote (strip rest) ∧
              out[i]? = some (head ++ MARK))) ∧
    ∀ (answer : List Ask → Ask → Except Text Unit) (file keys pre : Text) (tags : List Text),
      let e := cmd_env_import answer file (.ok text) keys pre tags
      (e.code ≠ 0 ∧ e.asked = []) ∨ ((keysOf keys).Nodup ∧
        (∀ key ∈ keysOf keys, ∃ value, valueOf (parse text) key = some value ∧ value ≠ [] ∧
          GivenLast (parse text) key value) ∧
        e.asked <+: (keysOf keys).flatMap (asksFor (parse text) pre tags) ∧
        (e.code = 0 ↔ e.asked = (keysOf keys).flatMap (asksFor (parse text) pre tags)) ∧ e.code ≤ 1) := by
  constructor
  · obtain ⟨out, hout, hlength, hlines⟩ := printed_spec (le_of_eq hone.symm)
    rw [← hone, List.take_length] at hout
    refine ⟨out, ?_, ?_, fun i raw hraw => ?_⟩
    · unfold env_show
      rw [hout]
      rfl
    · rw [hlength, parse, List.length_map]
    · have hline : (parse text)[i]? = some (_line raw) := by rw [parse, List.getElem?_map, hraw, Option.map_some]
      obtain ⟨hplain, hassigns⟩ := hlines i (_line raw) hline
      refine ⟨fun hnone => hplain (by rw [_line, hnone]; rfl), fun key value hsome => ?_⟩
      obtain ⟨secret, hsecret, hshown⟩ := hassigns key (by rw [_line, hsome]; rfl)
      refine ⟨secret, hsecret, ?_, ?_⟩
      · rintro rfl
        exact hshown
      · rintro rfl
        obtain ⟨head, rest, hsplit, hhead, hvalue, hmask⟩ := mask_line hsome
        exact ⟨head, rest, hsplit, hhead, hvalue, hmask ▸ hshown⟩
  · intro answer file keys pre tags
    rcases import_spec (rfl : cmd_env_import answer file (.ok text) keys pre tags = _) with hnothing | ⟨text', htext, hrest⟩
    · exact .inl hnothing
    · obtain rfl := Except.ok.inj htext
      exact .inr hrest

/-- Two assignments, the second one secret. -/
theorem shown_and_stored_two : ∃ out, env_show (parse "HOST=local\nexport PW = 's3 x' # note\n".toList) [false, true] =
      some (out ++ [summary 1 2]) ∧ out.length = 2 := by
  have hone : [false, true].length = (entries (parse "HOST=local\nexport PW = 's3 x' # note\n".toList)).length := by decide
  obtain ⟨⟨out, hout, hlength, -⟩, -⟩ := shown_and_stored _ [false, true] hone
  exact ⟨out, hout, hlength⟩

/-- A file with one assignment of a quoted value, which may run over several lines. -/
def quotedFile (key value : Text) : Text := key ++ '=' :: '"' :: value ++ ['"', '\n']

/-- The second line of a quoted secret is shown, and an import that is refused its second key has stored the first. -/
theorem quoted_second_line_shown :
    (env_show (parse (quotedFile "KEY".toList "abc\nxyz".toList)) [true] =
        some ["KEY=[REDACTED]".toList, "xyz\"".toList, "masked 1 of 1 values".toList] ∧
      'x' ∈ "abc\nxyz".toList ∧ 'x' ∉ quotedFile "KEY".toList []) ∧
    (cmd_env_import (fun asked _ => if asked.length < 2 then .ok () else .error "secret b already exists".toList) ".env".toList
      (.ok "A=1\nB=2\n".toList) "A,B".toList [] []).asked =
        [Ask.create "a".toList "A".toList [], Ask.set "a".toList "1".toList] := by
  constructor
  · with_unfolding_all decide
  · with_unfolding_all decide

end Stablemate.Dotenv
