import Stablemate.Model.Relay
import Stablemate.Proof.Redact
import Stablemate.Proof.Verbs

/-!
# What a relayed child shows

* `pump_eq`: **a stream cut in any way comes out as the replacement in the whole**, at every place
  of the longest form that stands there.
* `reads_of_envValues`: every variable holds what the store gave for the field of its last binding.
* `exec_masks_iff`: `exec` masks what it hands over **exactly when** every secret in a variable that
  is also bound to a username or to metadata is masked on account of another variable.
-/

namespace Stablemate.Saddlebag

open PyJson (Value Key Entries)
open TwoRun (Yields outcome)

/-! ## Forms -/

theorem sub_ne_nil {α : Type} {m : List α → ℕ} {rep s : List α} (hs : s ≠ []) (hrep : rep ≠ []) : Scan.sub m rep 0 s ≠ [] := by
  obtain ⟨c, s, rfl⟩ := List.exists_cons_of_ne_nil hs
  unfold Scan.sub
  split
  · exact List.cons_ne_nil _ _
  · exact List.append_ne_nil_of_left_ne_nil hrep _

theorem forms_ne_nil {v f : Text} (hv : v ≠ []) (hf : f ∈ forms v) : f ≠ [] := by
  have hspaced : ∀ b, quoteSpacedByte b ≠ [] := by
    intro b
    unfold quoteSpacedByte
    split
    · exact List.cons_ne_nil _ _
    · exact Redact.quoteByte_ne_nil b
  have hraw : ∀ c, jsonRawChar c ≠ [] := by
    intro c
    unfold jsonRawChar
    split
    · exact Text.jsonChar_ne_nil c
    · exact List.cons_ne_nil _ _
  simp only [forms, List.mem_cons, List.not_mem_nil, or_false] at hf
  rcases hf with rfl | rfl | rfl | rfl | rfl | rfl
  · exact hv
  · exact sub_ne_nil hv (List.cons_ne_nil _ _)
  · exact Redact.flatMap_ne_nil Redact.quoteByte_ne_nil (Text.utf8_ne_nil hv)
  · exact sub_ne_nil (Redact.flatMap_ne_nil hspaced (Text.utf8_ne_nil hv)) (List.cons_ne_nil _ _)
  · exact Redact.flatMap_ne_nil Text.jsonChar_ne_nil hv
  · exact Redact.flatMap_ne_nil hraw hv

/-! ## The redactor -/

section Redactor

variable {r : Redactor} {values : List Text}

theorem Redactor.length_le (r : Redactor) {w : List ℕ} (hw : w ∈ r.needles) : w.length ≤ r.longest := by
  have hsort := r.sorted
  obtain ⟨a, needles, ha⟩ := List.exists_cons_of_ne_nil r.some
  have hlong : r.longest = a.length := by
    unfold Redactor.longest
    simp only [ha, List.head_cons]
  unfold LongestFirst at hsort
  rw [ha] at hw hsort
  rw [hlong]
  rcases List.mem_cons.1 hw with rfl | hw
  · exact le_rfl
  · exact (List.pairwise_cons.1 hsort).1 w hw

theorem Redactor.longest_pos (r : Redactor) : 0 < r.longest :=
  List.length_pos_iff.2 (r.nonempty _ (List.head_mem r.some))

/-- **One piece**: what comes out and what is held back are, whatever follows, what was held back
and the piece. -/
theorem feed_spec (r : Redactor) (chunk rest : List ℕ) :
    (r.feed chunk).1 ++ Scan.sub r.pattern MARK 0 ((r.feed chunk).2.held ++ rest) =
      Scan.sub r.pattern MARK 0 (r.held ++ chunk ++ rest) := by
  have hlocal : Scan.Local r.pattern r.longest := Scan.local_firstOf fun w hw => r.length_le hw
  have hcopy := Scan.copy_spans MARK (r.held ++ chunk) ((r.held ++ chunk).length + 1 - r.longest) hlocal r.longest_pos
    (by omega) rest _ 0 0 le_rfl le_rfl (.inl (Nat.zero_le _))
  exact hcopy.symm

theorem pump_spec : ∀ (chunks : List (List ℕ)) (r : Redactor),
    _pump r chunks = Scan.sub r.pattern MARK 0 (r.held ++ chunks.flatten) := by
  intro chunks
  induction chunks with
  | nil =>
    intro r
    rw [List.flatten_nil, List.append_nil]
    rfl
  | cons chunk chunks ih =>
    intro r
    have hpattern : (r.feed chunk).2.pattern = r.pattern := rfl
    show (r.feed chunk).1 ++ _pump (r.feed chunk).2 chunks = _
    rw [ih, hpattern, feed_spec, List.flatten_cons, List.append_assoc]

theorem new_spec (h : Redactor.new values = .ok r) : r.held = [] ∧ ∀ w, w ∈ r.needles ↔ w ∈ needleSet values := by
  unfold Redactor.new at h
  dsimp only at h
  split at h
  · cases h
  · obtain rfl := Except.ok.inj h
    exact ⟨rfl, fun w => mem_sortedByLength.trans List.mem_dedup⟩

theorem new_ok {w : List ℕ} (hw : w ∈ needleSet values) : ∃ r, Redactor.new values = .ok r := by
  unfold Redactor.new
  dsimp only
  split
  · rename_i hnil
    have hmem := mem_sortedByLength.2 (List.mem_dedup.2 hw)
    rw [hnil] at hmem
    cases hmem
  · exact ⟨_, rfl⟩

/-- **What is written is the replacement in the whole stream**, however it was cut. -/
theorem pump_eq (h : Redactor.new values = .ok r) (chunks : List (List ℕ)) :
    _pump r chunks = Scan.sub (Scan.longestOf (needleSet values)) MARK 0 chunks.flatten := by
  obtain ⟨hheld, hneedles⟩ := new_spec h
  have hpattern : r.pattern = Scan.longestOf (needleSet values) := by
    funext s
    exact (Scan.firstOf_eq_longestOf r.sorted s).trans (Scan.longestOf_congr hneedles s)
  rw [pump_spec, hpattern, hheld, List.nil_append]

/-- No needle comes out. -/
theorem pump_clean (h : Redactor.new values = .ok r) {w : List ℕ} (hw : w ∈ needleSet values) (hapart : Scan.Apart w MARK)
    (chunks : List (List ℕ)) : ¬ w <:+: _pump r chunks := by
  obtain ⟨-, hneedles⟩ := new_spec h
  rw [pump_spec]
  exact Scan.not_infix_sub r.nonempty ((hneedles w).2 hw) hapart _ _ le_rfl

/-- A stream without a needle comes out as it is. -/
theorem pump_plain (h : Redactor.new values = .ok r) {s : List ℕ} (hs : ∀ w ∈ needleSet values, ¬ w <:+: s) :
    _pump r [s] = s := by
  obtain ⟨hheld, hneedles⟩ := new_spec h
  rw [pump_spec, hheld, List.nil_append, List.flatten_singleton]
  exact Scan.sub_of_none fun w hw => hs w ((hneedles w).1 hw)

end Redactor

/-! ## What stands in the environment -/

section Env

variable {τ σ : Type} {store : SecretStore τ}

/-- The store gave `v` for a field. -/
def Gave (store : SecretStore τ) (field v : Text) : Prop :=
  ∃ name s, (outcome (store.value name field) s).1 = .ok (some v)

/-- The field that a variable is filled from: that of its last binding, else the password of the
secret that a tag matched. -/
def sourceOf (bindings : List Binding) (var : Text) : Text :=
  bindings.foldl (fun field b => if b.var = var then b.field else field) (lit "password")

theorem mem_setKey_of_nodup {k v : Text} {kv : Text × Text} : ∀ {l : List (Text × Text)}, (l.map Prod.fst).Nodup →
    kv ∈ setKey k v l → kv = (k, v) ∨ kv ∈ l ∧ kv.1 ≠ k := by
  intro l
  induction l with
  | nil => exact fun _ h => .inl (List.mem_singleton.1 h)
  | cons a l ih =>
    obtain ⟨k', v'⟩ := a
    intro hnodup h
    rw [List.map_cons, List.nodup_cons] at hnodup
    unfold setKey at h
    split at h
    · rename_i hk
      subst hk
      rcases List.mem_cons.1 h with rfl | h
      · exact .inl rfl
      · exact .inr ⟨List.mem_cons_of_mem _ h, fun heq => hnodup.1 (List.mem_map.2 ⟨kv, h, heq⟩)⟩
    · rename_i hk
      rcases List.mem_cons.1 h with rfl | h
      · exact .inr ⟨List.mem_cons_self, hk⟩
      · rcases ih hnodup.2 h with h | ⟨h, hne⟩
        · exact .inl h
        · exact .inr ⟨List.mem_cons_of_mem _ h, hne⟩

theorem keys_setKey {k v x : Text} : ∀ {l : List (Text × Text)},
    x ∈ (setKey k v l).map Prod.fst ↔ x = k ∨ x ∈ l.map Prod.fst := by
  intro l
  induction l with
  | nil => simp [setKey]
  | cons a l ih =>
    obtain ⟨k', v'⟩ := a
    unfold setKey
    split
    · rename_i hk
      subst hk
      simp
    · rw [List.map_cons, List.map_cons, List.mem_cons, List.mem_cons, ih]
      tauto

theorem nodup_setKey {k v : Text} : ∀ {l : List (Text × Text)}, (l.map Prod.fst).Nodup →
    ((setKey k v l).map Prod.fst).Nodup := by
  intro l
  induction l with
  | nil => exact fun _ => List.nodup_singleton k
  | cons a l ih =>
    obtain ⟨k', v'⟩ := a
    intro hnodup
    rw [List.map_cons, List.nodup_cons] at hnodup
    unfold setKey
    split
    · rw [List.map_cons, List.nodup_cons]
      exact hnodup
    · rename_i hk
      rw [List.map_cons, List.nodup_cons]
      refine ⟨fun hmem => ?_, ih hnodup.2⟩
      rcases keys_setKey.1 hmem with heq | hmem
      · exact hk heq
      · exact hnodup.1 hmem

/-- Each variable stands once, and holds what the store gave for its field. -/
structure Reads (store : SecretStore τ) (source : Text → Text) (values : List (Text × Text)) : Prop where
  nodup : (values.map Prod.fst).Nodup
  gave : ∀ kv ∈ values, Gave store (source kv.1) kv.2

theorem Reads.setKey {source : Text → Text} {values : List (Text × Text)} {var field v : Text} (h : Reads store source values)
    (hv : Gave store field v) : Reads store (fun x => if var = x then field else source x) (setKey var v values) where
  nodup := nodup_setKey h.nodup
  gave := by
    intro kv hkv
    rcases mem_setKey_of_nodup h.nodup hkv with rfl | ⟨hmem, hne⟩
    · rw [if_pos rfl]
      exact hv
    · rw [if_neg fun heq => hne heq.symm]
      exact h.gave kv hmem

theorem yields_value (secret : Secret) (field : Text) :
    Yields (_value store secret field : Run τ σ Text) (Gave store field) := by
  unfold _value
  have hshelf : Yields (onShelf (store.value secret.name field) : Run τ σ (Option Text))
      fun o => ∀ v, o = some v → Gave store field v := by
    intro bag o ho v hv
    subst hv
    exact ⟨secret.name, bag.shelf, ho⟩
  refine hshelf.bind fun o ho => ?_
  cases o with
  | some v => exact Yields.pure (ho v rfl)
  | none => exact Yields.raise _

theorem yields_unless {α : Type} {Q : α → Prop} {c : Prop} [Decidable c] {e : Raised} {f : PUnit → Run τ σ α}
    (hf : Yields (f ⟨⟩) Q) : Yields (if c then (throw e : Run τ σ PUnit) >>= f else f ⟨⟩) Q := by
  split
  · exact (Yields.raise e : Yields _ fun _ => False).bind fun _ hno => hno.elim
  · exact hf

theorem reads_nil {source : Text → Text} : Reads store source [] := ⟨List.nodup_nil, fun _ h => (List.not_mem_nil h).elim⟩

theorem reads_tagValues (tags : List Tag) :
    Yields (tagValues store tags : Run τ σ (List (Text × Text))) (Reads store fun _ => lit "password") := by
  unfold tagValues
  split
  · exact Yields.pure reads_nil
  · refine (Yields.any _).bind fun matched _ => yields_unless ?_
    have hloop : ∀ (matched : List Secret) (acc : List (Text × Text) × List (Text × Text)),
        Reads store (fun _ => lit "password") acc.1 → Yields (matched.foldlM (fillTagged store) acc : Run τ σ _)
          fun acc => Reads store (fun _ => lit "password") acc.1 := by
      intro matched
      induction matched with
      | nil => exact fun acc hacc => Yields.pure hacc
      | cons secret matched ih =>
        intro acc hacc
        rw [List.foldlM_cons]
        refine Yields.bind (Q := fun acc => Reads store (fun _ => lit "password") acc.1) ?_ ih
        unfold fillTagged
        cases secret.var with
        | none => exact Yields.raise _
        | some var =>
          dsimp only
          cases acc.2.lookup var with
          | some owner => exact Yields.raise _
          | none =>
            refine (yields_value secret _).bind fun v hv => Yields.pure ?_
            have hset : Reads store (fun x => if var = x then lit "password" else lit "password")
                (Saddlebag.setKey var v acc.1) := hacc.setKey hv
            simpa using hset
    exact (hloop matched ([], []) reads_nil).bind fun acc hacc => Yields.pure hacc

theorem yields_checked {α : Type} (r : Checked α) : Yields (_checked r : Run τ σ α) fun a => r = .ok a := by
  cases r with
  | ok a => exact Yields.pure rfl
  | error message => exact Yields.raise _

theorem text_of_str {args : Entries} {key s : Text} (h : argument args key = .str s) (required : Bool) :
    (_text args key required : Run τ σ (Option Text)) = pure (some s) := by
  unfold _text
  rw [h]
  rfl

theorem validate_var_eq {name var : Text} (h : validate_var name = .ok var) : var = name := by
  unfold validate_var at h
  split at h
  · exact (Except.ok.inj h).symm
  · cases h

theorem reads_bind {source : Text → Text} {values : List (Text × Text)} (h : Reads store source values) {b : Binding}
    (hfield : b.field ≠ []) :
    Yields (bind store values b.value : Run τ σ (List (Text × Text)))
      (Reads store fun x => if b.var = x then b.field else source x) := by
  unfold Binding.value bind
  have hvar : argument [entry "var" (str b.var), entry "name" (str b.name), entry "field" (str b.field)] (lit "var") =
      .str b.var := rfl
  have hgiven : argument [entry "var" (str b.var), entry "name" (str b.name), entry "field" (str b.field)] (lit "field") =
      .str b.field := rfl
  have hfieldOr : fieldOr (some b.field) = b.field := if_neg hfield
  have hrequired : (_required [entry "var" (str b.var), entry "name" (str b.name), entry "field" (str b.field)]
      (lit "var") : Run τ σ Text) = pure b.var := by
    unfold _required
    rw [text_of_str hvar]
    rfl
  dsimp only
  rw [text_of_str hgiven, hrequired]
  refine (Yields.pure (Q := fun x => x = b.var) rfl).bind fun var hv => ?_
  subst hv
  refine (yields_checked _).bind fun var hv => (Yields.any _).bind fun secret _ => ?_
  obtain rfl := validate_var_eq hv
  refine (Yields.pure (Q := fun x => x = some b.field) rfl).bind fun given hgiven => ?_
  subst hgiven
  refine (yields_checked _).bind fun field hf => (yields_value secret field).bind fun v hgave => Yields.pure ?_
  have hsame := (validate_field_spec hf).1
  rw [hfieldOr] at hsame
  subst hsame
  exact h.setKey hgave

theorem reads_bindings : ∀ {bindings : List Binding}, (∀ b ∈ bindings, b.field ≠ []) →
    ∀ {source : Text → Text} {values : List (Text × Text)}, Reads store source values →
      Yields ((bindings.map Binding.value).foldlM (bind store) values : Run τ σ (List (Text × Text)))
        (Reads store fun x => bindings.foldl (fun field b => if b.var = x then b.field else field) (source x)) := by
  intro bindings
  induction bindings with
  | nil => exact fun _ {source values} h => Yields.pure h
  | cons b bindings ih =>
    intro hfields source values h
    obtain ⟨hhead, htail⟩ := List.forall_mem_cons.1 hfields
    rw [List.map_cons, List.foldlM_cons]
    exact (reads_bind h hhead).bind fun values hvalues => ih htail hvalues

/-- **Every variable holds what the store gave for the field of its last binding.** -/
theorem reads_of_envValues {bindings : List Binding} (hfields : ∀ b ∈ bindings, b.field ≠ []) (tags : List Text) :
    Yields (envValues store (envArgs tags bindings) : Run τ σ (List (Text × Text))) (Reads store (sourceOf bindings)) := by
  unfold envValues
  have hraw : argument (envArgs tags bindings) (lit "bindings") = .list (bindings.map Binding.value) := rfl
  refine (Yields.any _).bind fun tags _ => (reads_tagValues tags).bind fun values hvalues => ?_
  rw [hraw]
  dsimp only
  split
  · refine (Yields.pure (Q := fun xs => xs = bindings.map Binding.value) rfl).bind fun xs hxs => ?_
    subst hxs
    exact reads_bindings hfields hvalues
  · rename_i hfalsy
    have hnil : bindings = [] := by
      cases bindings with
      | nil => rfl
      | cons b bindings => exact absurd rfl hfalsy
    subst hnil
    exact Yields.pure hvalues

end Env

/-! ## `exec` -/

section Exec

variable {τ σ : Type} {store : SecretStore τ} {doors : Doors σ} {counter : Counter} {environ : List (Text × Text)}
variable {terminal : Bool} {args : ExecArgs} {bag : Bag τ σ} {l : Launch}

/-- A password or seed that the child gets, long enough to be masked. -/
structure Exposed (l : Launch) (v : Text) : Prop where
  intro ::
  var : ∃ var, (var, v) ∈ l.values ∧ sourceOf l.bindings var ∈ VALUE_FIELDS
  long : MIN_LENGTH ≤ v.length

/-- Every form of a secret that the child gets holds a form of a value in a variable that is bound
neither to a username nor to metadata. -/
def Covered (l : Launch) : Prop :=
  ∀ v, Exposed l v → ∀ f ∈ forms v, ∃ kv ∈ l.values, kv.1 ∉ plainVars l.bindings ∧ MIN_LENGTH ≤ kv.2.length ∧
    ∃ g ∈ forms kv.2, Text.utf8 g <:+: Text.utf8 f

/-- Whatever the child writes to its two streams, however it is cut, no form of `v` comes out. -/
def Masked (l : Launch) (v : Text) : Prop :=
  ∀ stdout stderr out err, relay l.masked stdout stderr = .ok (out, err) →
    ∀ f ∈ forms v, ¬ Text.utf8 f <:+: out ∧ ¬ Text.utf8 f <:+: err

theorem mem_masked {u : Text} : u ∈ l.masked ↔ ∃ var, (var, u) ∈ l.values ∧ var ∉ plainVars l.bindings ∧ MIN_LENGTH ≤ u.length := by
  have hne : MIN_LENGTH ≤ u.length → u ≠ [] := by
    rintro hlong rfl
    exact absurd hlong (by decide)
  unfold Launch.masked maskedValues hiddenValues
  rw [List.mem_filter, List.mem_map]
  constructor
  · rintro ⟨⟨⟨var, value⟩, hmem, rfl⟩, hlong⟩
    obtain ⟨hmem, hkept⟩ := List.mem_filter.1 hmem
    rw [Bool.and_eq_true, Bool.not_eq_true', List.contains_eq_mem, decide_eq_false_iff_not] at hkept
    exact ⟨var, hmem, hkept.1, of_decide_eq_true hlong⟩
  · rintro ⟨var, hmem, hvar, hlong⟩
    refine ⟨⟨(var, u), List.mem_filter.2 ⟨hmem, ?_⟩, rfl⟩, decide_eq_true hlong⟩
    rw [Bool.and_eq_true, Bool.not_eq_true', List.contains_eq_mem, decide_eq_false_iff_not]
    exact ⟨hvar, decide_eq_true (hne hlong)⟩

theorem mem_needleSet {values : List Text} {w : List ℕ} :
    w ∈ needleSet values ↔ ∃ u ∈ values, ∃ g ∈ forms u, g ≠ [] ∧ Text.utf8 g = w := by
  unfold needleSet
  rw [List.mem_map]
  constructor
  · rintro ⟨g, hg, rfl⟩
    obtain ⟨hg, hne⟩ := List.mem_filter.1 hg
    obtain ⟨u, hu, hg⟩ := List.mem_flatMap.1 hg
    exact ⟨u, hu, g, hg, of_decide_eq_true hne, rfl⟩
  · rintro ⟨u, hu, g, hg, hne, rfl⟩
    exact ⟨g, List.mem_filter.2 ⟨List.mem_flatMap.2 ⟨u, hu, hg⟩, decide_eq_true hne⟩, rfl⟩

/-- A reply that carries the values, as `cmd_exec` reads them. -/
theorem repliedValues_stringDict (values : List (Text × Text)) :
    repliedValues [entry "values" (stringDict values)] = some values := by
  have hread : argument [entry "values" (stringDict values)] (lit "values") = stringDict values := rfl
  unfold repliedValues
  rw [hread]
  show some (List.filterMap _ (values.map _)) = _
  rw [List.filterMap_map]
  exact congrArg some List.filterMap_some

theorem binding_field {text : Text} {b : Binding} (h : _binding text = .ok b) : b.field ≠ [] := by
  unfold _binding at h
  dsimp only at h
  split at h
  · cases h
  · obtain rfl := Except.ok.inj h
    dsimp only
    split
    · decide
    · assumption

/-- A reply of `env` that is no error carries what the run of `envValues` gave. -/
theorem handle_env {request : Entries} (h : (handle store doors counter ⟨lit "env", request⟩ bag).1.ok = true) :
    ∃ values, (outcome (envValues store request) bag).1 = .ok values ∧
      (handle store doors counter ⟨lit "env", request⟩ bag).1.result = [entry "values" (stringDict values)] := by
  have hrun := TwoRun.outcome_bind (envValues store request)
    (fun values => (pure [entry "values" (stringDict values)] : Run τ σ Entries)) bag
  have hhandle : handle store doors counter ⟨lit "env", request⟩ bag =
      ((replyTo (lit "env") (outcome (verb_env store request) bag).1).1,
        { (outcome (verb_env store request) bag).2 with
          log := (outcome (verb_env store request) bag).2.log ++
            (replyTo (lit "env") (outcome (verb_env store request) bag).1).2.toList }) := rfl
  have hverb : verb_env store request =
      envValues store request >>= fun values => (pure [entry "values" (stringDict values)] : Run τ σ Entries) := rfl
  rw [hhandle] at h ⊢
  rw [hverb, hrun] at h ⊢
  cases hvalues : outcome (envValues store request) bag with
  | mk r s' =>
    rw [hvalues] at h
    cases r with
    | ok values => exact ⟨values, rfl, rfl⟩
    | error e => cases e <;> cases h

theorem binding_fields : ∀ {texts : List Text} {bindings : List Binding}, texts.mapM _binding = .ok bindings →
    ∀ b ∈ bindings, b.field ≠ [] := by
  intro texts
  induction texts with
  | nil =>
    intro bindings h b hb
    obtain rfl := Except.ok.inj h
    cases hb
  | cons text texts ih =>
    intro bindings h
    rw [List.mapM_cons] at h
    cases hone : _binding text with
    | error message =>
      rw [hone] at h
      cases h
    | ok b =>
      cases hrest : texts.mapM _binding with
      | error message =>
        rw [hone, hrest] at h
        cases h
      | ok bs =>
        rw [hone, hrest] at h
        obtain rfl := Except.ok.inj h
        exact List.forall_mem_cons.2 ⟨binding_field hone, ih hrest⟩

/-- **What stands in the environment is what the store gave**, and something of it is masked. -/
theorem exec_relays (h : (cmd_exec store doors counter environ terminal args bag).1 = .relays l) :
    args.env.mapM _binding = .ok l.bindings ∧ Reads store (sourceOf l.bindings) l.values ∧ l.masked ≠ [] := by
  unfold cmd_exec at h
  generalize (if args.command.take 1 = [lit "--"] then args.command.drop 1 else args.command) = command at h
  dsimp only at h
  by_cases hcommand : command = []
  · rw [if_pos hcommand] at h
    cases h
  rw [if_neg hcommand] at h
  split at h
  · cases h
  cases hbind : args.env.mapM _binding with
  | error message =>
    rw [hbind] at h
    cases h
  | ok bindings =>
    rw [hbind] at h
    cases htags : args.tag.mapM parse_tag with
    | error message =>
      rw [htags] at h
      cases h
    | ok tags =>
      rw [htags] at h
      dsimp only at h
      split at h
      · cases h
      · rename_i hok
        rw [Bool.not_eq_true', Bool.not_eq_false] at hok
        obtain ⟨values, hvalues, hresult⟩ := handle_env hok
        rw [hresult, repliedValues_stringDict] at h
        dsimp only at h
        split at h
        · cases h
        · rename_i hmasked
          obtain rfl := Exec.relays.inj h
          rw [Bool.or_eq_true, not_or, decide_eq_true_iff] at hmasked
          exact ⟨rfl, reads_of_envValues (binding_fields hbind) args.tag bag values hvalues, hmasked.2⟩

theorem mem_needles_masked {w : List ℕ} : w ∈ needleSet l.masked ↔ ∃ kv ∈ l.values, kv.1 ∉ plainVars l.bindings ∧
    MIN_LENGTH ≤ kv.2.length ∧ ∃ g ∈ forms kv.2, Text.utf8 g = w := by
  rw [mem_needleSet]
  constructor
  · rintro ⟨u, hu, g, hg, -, hw⟩
    obtain ⟨var, hmem, hvar, hlong⟩ := mem_masked.1 hu
    exact ⟨(var, u), hmem, hvar, hlong, g, hg, hw⟩
  · rintro ⟨⟨var, u⟩, hmem, hvar, hlong, g, hg, hw⟩
    have hne : u ≠ [] := List.ne_nil_of_length_pos (lt_of_lt_of_le (by decide) hlong)
    exact ⟨u, mem_masked.2 ⟨var, hmem, hvar, hlong⟩, g, hg, forms_ne_nil hne hg, hw⟩

/-- **`exec` masks every secret it hands over exactly when each is covered**, where no needle overlaps
the mark; and the redactor is the replacement in the whole stream, for any values and any cut. -/
theorem exec_masks_iff (h : (cmd_exec store doors counter environ terminal args bag).1 = .relays l)
    (hapart : ∀ w ∈ needleSet l.masked, Scan.Apart w MARK) :
    ((∀ v, Exposed l v → Masked l v) ↔ Covered l) ∧
      ∀ values r, Redactor.new values = .ok r → ∀ chunks,
        _pump r chunks = Scan.sub (Scan.longestOf (needleSet values)) MARK 0 chunks.flatten := by
  refine ⟨⟨fun hmasked v hv f hf => ?_, fun hcovered v hv stdout stderr out err hrelay f hf => ?_⟩, fun values r hr => pump_eq hr⟩
  · -- a child that writes the form and nothing else
    by_contra hno
    obtain ⟨-, -, hne⟩ := exec_relays h
    obtain ⟨u, rest, hu⟩ := List.exists_cons_of_ne_nil hne
    obtain ⟨r, hr⟩ : ∃ r, Redactor.new l.masked = .ok r := by
      have hmem : u ∈ l.masked := by
        rw [hu]
        exact List.mem_cons_self
      obtain ⟨var, hvar, hplain, hlong⟩ := mem_masked.1 hmem
      exact new_ok (mem_needles_masked.2 ⟨(var, u), hvar, hplain, hlong, u, List.mem_cons_self, rfl⟩)
    have hplain : _pump r [Text.utf8 f] = Text.utf8 f := by
      refine pump_plain hr fun w hw hin => hno ?_
      obtain ⟨kv, hkv, hvar, hlong, g, hg, rfl⟩ := mem_needles_masked.1 hw
      exact ⟨kv, hkv, hvar, hlong, g, hg, hin⟩
    have hrelay : relay l.masked [Text.utf8 f] [] = .ok (Text.utf8 f, _pump r []) := by
      unfold relay
      rw [hr]
      show Except.ok (_pump r [Text.utf8 f], _pump r []) = _
      rw [hplain]
    exact (hmasked v hv _ _ _ _ hrelay f hf).1 List.infix_rfl
  · obtain ⟨kv, hkv, hvar, hlong, g, hg, hin⟩ := hcovered v hv f hf
    have hw : Text.utf8 g ∈ needleSet l.masked := mem_needles_masked.2 ⟨kv, hkv, hvar, hlong, g, hg, rfl⟩
    unfold relay at hrelay
    cases hr : Redactor.new l.masked with
    | error message =>
      rw [hr] at hrelay
      cases hrelay
    | ok r =>
      rw [hr] at hrelay
      obtain ⟨rfl, rfl⟩ := Prod.mk.inj (Except.ok.inj hrelay)
      exact ⟨fun hout => pump_clean hr hw (hapart _ hw) _ (hin.trans hout),
        fun herr => pump_clean hr hw (hapart _ hw) _ (hin.trans herr)⟩

end Exec

/-! ## A shelf with two passwords -/

def shopBag : Bag (Shelf Unit) Unit where
  shelf :=
    { secrets := [{ name := lit "bank", username := some (lit "teller"), fields := [lit "password"] },
        { name := lit "shop", fields := [lit "password"] }]
      values := [(lit "bank/password", lit "correct-horse"), (lit "shop/password", lit "staple-batter")]
      env := () }
  world := ()
  log := []

def execOf (env : List Text) : Exec :=
  (cmd_exec (storeOf quietBackend .keyring) quietDoors quietCounter [] false ⟨[lit "make"], [], env⟩ shopBag).1

theorem exec_masks_iff_shop :
    ((∀ v, Exposed ⟨[], [⟨lit "B", lit "shop", lit "password"⟩], [(lit "B", lit "staple-batter")]⟩ v →
        Masked ⟨[], [⟨lit "B", lit "shop", lit "password"⟩], [(lit "B", lit "staple-batter")]⟩ v) ↔
      Covered ⟨[], [⟨lit "B", lit "shop", lit "password"⟩], [(lit "B", lit "staple-batter")]⟩) ∧
      ∀ values r, Redactor.new values = .ok r → ∀ chunks,
        _pump r chunks = Scan.sub (Scan.longestOf (needleSet values)) MARK 0 chunks.flatten := by
  have hrelays : execOf [lit "B=shop"] =
      .relays ⟨[], [⟨lit "B", lit "shop", lit "password"⟩], [(lit "B", lit "staple-batter")]⟩ := rfl
  exact exec_masks_iff hrelays (by decide)

/-- What `--env A=bank.username --env A=bank.password --env B=shop` starts the command with. -/
def leaking : Launch where
  environ := []
  bindings := [⟨lit "A", lit "bank", lit "username"⟩, ⟨lit "A", lit "bank", lit "password"⟩,
    ⟨lit "B", lit "shop", lit "password"⟩]
  values := [(lit "A", lit "correct-horse"), (lit "B", lit "staple-batter")]

/-- **A password in a variable that was bound to a username before is shown as it is.** -/
theorem exec_shows_password :
    execOf [lit "A=bank.username", lit "A=bank.password", lit "B=shop"] = .relays leaking ∧
      (∀ w ∈ needleSet leaking.masked, Scan.Apart w MARK) ∧ Exposed leaking (lit "correct-horse") ∧
      relay leaking.masked [Text.utf8 (lit "correct-horse")] [] = .ok (Text.utf8 (lit "correct-horse"), []) ∧
      ¬ Masked leaking (lit "correct-horse") := by
  have hrelay : relay leaking.masked [Text.utf8 (lit "correct-horse")] [] = .ok (Text.utf8 (lit "correct-horse"), []) := by
    decide
  refine ⟨rfl, by decide, ⟨⟨lit "A", by decide, by decide⟩, by decide⟩, hrelay, fun hmasked => ?_⟩
  exact (hmasked _ _ _ _ hrelay _ List.mem_cons_self).1 List.infix_rfl

end Stablemate.Saddlebag
