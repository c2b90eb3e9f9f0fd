import Stablemate.Model.Commands
import Stablemate.Proof.Shelf

/-!
# The keyring shelf under several commands

* `Sound`: the catalogue is what the answered commands leave one after another, and every item
  belongs to a record and was stored since the last removal of its name; each command keeps it
  when it is alone (`keeps_program`).
* `program_answers`: what an answer ok says, whatever the others do.
* `matches_store`: alone, each part does what the call of the shelf does.
* `shelf_in_step` puts them together.
-/

namespace Stablemate.Saddlebag.Commands

open Solo (Prog)

variable {α β : Type} {s : Store}

/-! ## The invariant -/

/-- What has been done since the last removal of a name. -/
def since (name : Text) (history : List Entry) : List Entry :=
  history.foldl (fun acc e => match e with
    | .wrote (.remove removed) => if removed = name then [] else acc ++ [e]
    | _ => acc ++ [e]) []

/-- **The two places are in step.** -/
structure Sound (s : Store) : Prop where
  catalogue : s.catalogue = (writes s.history).foldl Write.on []
  items : ∀ item ∈ s.items, ∃ name field, field ∈ VALUE_FIELDS ∧ item.1 = accountOf name field ∧
    (∃ secret ∈ s.catalogue, secret.name = name) ∧ Entry.stored item.1 item.2 ∈ since name s.history

section History

variable {name : Text} {history : List Entry} {e : Entry}

/-- An entry that removes another name, or none. -/
theorem since_append (h : e ≠ .wrote (.remove name)) : since name (history ++ [e]) = since name history ++ [e] := by
  unfold since
  rw [List.foldl_append, List.foldl_cons, List.foldl_nil]
  split
  · next removed =>
    rw [if_neg fun heq => h (by rw [heq])]
  · rfl

theorem since_removed : since name (history ++ [.wrote (.remove name)]) = [] := by
  unfold since
  rw [List.foldl_append, List.foldl_cons, List.foldl_nil]
  simp

/-- Every entry since the last removal stands behind every removal. -/
theorem mem_since (he : e ∈ since name history) {pre post : List Entry}
    (hsplit : history = pre ++ .wrote (.remove name) :: post) : e ∈ post := by
  subst hsplit
  induction post using List.reverseRecOn with
  | nil =>
    rw [since_removed] at he
    exact absurd he List.not_mem_nil
  | append_singleton post last ih =>
    rw [← List.cons_append, ← List.append_assoc] at he
    by_cases hlast : last = .wrote (.remove name)
    · rw [hlast, since_removed] at he
      exact absurd he List.not_mem_nil
    · rw [since_append hlast, List.mem_append] at he
      exact List.mem_append.2 (he.imp ih id)

theorem writes_append (write : Write) : writes (history ++ [.wrote write]) = writes history ++ [write] := by
  simp [writes]

theorem writes_stored (account value : Text) : writes (history ++ [.stored account value]) = writes history := by
  simp [writes]

end History

/-! ## The records -/

section Records

variable {secrets : List Secret} {name : Text} {secret : Secret}

/-- A record that is put in leaves every name. -/
theorem put_names (secret : Secret) (h : ∃ s ∈ secrets, s.name = name) : ∃ s ∈ Saddlebag.put secrets secret, s.name = name := by
  obtain ⟨s, hs, rfl⟩ := h
  unfold Saddlebag.put
  by_cases heq : s.name = secret.name
  · exact ⟨secret, by simp, heq.symm⟩
  · exact ⟨s, List.mem_append_left _ (List.mem_filter.2 ⟨hs, by simpa using heq⟩), rfl⟩

theorem edit_names (f : Secret → Secret) (other : Text) (h : ∃ s ∈ secrets, s.name = name) :
    ∃ s ∈ edit secrets other f, s.name = name := by
  unfold edit
  split
  · exact put_names _ h
  · exact h

/-- Only a removal takes a name away, and only its own. -/
theorem on_names {write : Write} (hwrite : write ≠ .remove name) (h : ∃ s ∈ secrets, s.name = name) :
    ∃ s ∈ write.on secrets, s.name = name := by
  cases write with
  | create secret => exact put_names _ h
  | set other field => exact edit_names _ _ h
  | unset other field => exact edit_names _ _ h
  | tag other tags => exact edit_names _ _ h
  | untag other tags => exact edit_names _ _ h
  | setMeta other given => exact edit_names _ _ h
  | unsetMeta other keys => exact edit_names _ _ h
  | remove other =>
    obtain ⟨s, hs, rfl⟩ := h
    refine ⟨s, List.mem_filter.2 ⟨hs, ?_⟩, rfl⟩
    simp only [ne_eq, decide_not, Bool.not_eq_eq_eq_not, Bool.not_true, decide_eq_false_iff_not]
    exact fun heq => hwrite (by rw [heq])

theorem edit_eq {f : Secret → Secret} (h : find secrets name = some secret) :
    edit secrets name f = Saddlebag.put secrets (f secret) := by
  unfold edit
  rw [h]

/-- A write leaves the records of all other names. -/
theorem find_on {write : Write} (h : write.name ≠ name) : find (write.on secrets) name = find secrets name := by
  have hput : ∀ secret : Secret, secret.name ≠ name → find (Saddlebag.put secrets secret) name = find secrets name :=
    fun secret hne => by rw [find_put, if_neg fun heq => hne heq.symm]
  have hedit : ∀ (other : Text) (f : Secret → Secret), other ≠ name → (∀ s, (f s).name = s.name) →
      find (edit secrets other f) name = find secrets name := by
    intro other f hne hf
    unfold edit
    split
    · next secret hfind =>
      refine hput _ ?_
      rw [hf, (find_eq_some hfind).2]
      exact hne
    · rfl
  cases write with
  | create secret => exact hput _ h
  | set other field => exact hedit _ _ h fun _ => rfl
  | unset other field => exact hedit _ _ h fun _ => rfl
  | tag other tags => exact hedit _ _ h fun _ => rfl
  | untag other tags => exact hedit _ _ h fun _ => rfl
  | setMeta other given => exact hedit _ _ h fun _ => rfl
  | unsetMeta other keys => exact hedit _ _ h fun _ => rfl
  | remove other => rw [Write.on, find_drop, if_neg fun heq => h heq.symm]

/-- A record is as its last write has left it. -/
theorem find_last (write : Write) (later : List Write) (hlater : ∀ w ∈ later, w.name ≠ write.name) :
    find (later.foldl Write.on (write.on secrets)) write.name = find (write.on secrets) write.name := by
  induction later using List.reverseRecOn with
  | nil => rfl
  | append_singleton later last ih =>
    rw [List.foldl_append, List.foldl_cons, List.foldl_nil, find_on (hlater last (by simp))]
    exact ih fun w hw => hlater w (List.mem_append_left _ hw)

end Records

/-- A write of the records, when no item loses its own. -/
theorem Sound.wrote {write : Write} (h : Sound s)
    (hkept : ∀ item ∈ s.items, ∀ name field, field ∈ VALUE_FIELDS → item.1 = accountOf name field → write ≠ .remove name) :
    Sound { s with catalogue := write.on s.catalogue, history := s.history ++ [.wrote write] } := by
  refine ⟨?_, fun item hitem => ?_⟩
  · rw [writes_append, List.foldl_append, ← h.catalogue]
    rfl
  · obtain ⟨name, field, hfield, haccount, hrecord, hstored⟩ := h.items item hitem
    have hne := hkept item hitem name field hfield haccount
    refine ⟨name, field, hfield, haccount, on_names hne hrecord, ?_⟩
    rw [since_append fun heq => hne (Entry.wrote.inj heq)]
    exact List.mem_append_left _ hstored

/-- A value stored for a record. -/
theorem Sound.stored {name field v : Text} (h : Sound s) (hfield : field ∈ VALUE_FIELDS)
    (hrecord : ∃ secret ∈ s.catalogue, secret.name = name) :
    Sound { s with items := setKey (accountOf name field) v s.items, history := s.history ++ [.stored (accountOf name field) v] } := by
  have hsince : ∀ other, since other (s.history ++ [.stored (accountOf name field) v]) =
      since other s.history ++ [.stored (accountOf name field) v] := fun other => since_append (fun heq => (nomatch heq))
  refine ⟨?_, fun item hitem => ?_⟩
  · rw [writes_stored]
    exact h.catalogue
  · rcases mem_setKey hitem with hitem | rfl
    · obtain ⟨other, field', hfield', haccount, hother, hstored⟩ := h.items item hitem
      refine ⟨other, field', hfield', haccount, hother, ?_⟩
      rw [hsince]
      exact List.mem_append_left _ hstored
    · refine ⟨name, field, hfield, rfl, hrecord, ?_⟩
      rw [hsince]
      exact List.mem_append_right _ List.mem_cons_self

theorem Sound.filtered (h : Sound s) (f : Text × Text → Bool) : Sound { s with items := s.items.filter f } :=
  ⟨h.catalogue, fun item hitem => h.items item (List.mem_filter.1 hitem).1⟩

/-- A removal of a name that has no item. -/
theorem Sound.removed {name : Text} (h : Sound s)
    (hnone : ∀ item ∈ s.items, ∀ field ∈ VALUE_FIELDS, item.1 ≠ accountOf name field) :
    Sound { s with catalogue := Saddlebag.drop s.catalogue name, history := s.history ++ [.wrote (.remove name)] } := by
  have hkept : ∀ item ∈ s.items, ∀ other field, field ∈ VALUE_FIELDS → item.1 = accountOf other field →
      Write.remove name ≠ .remove other := by
    intro item hitem other field hfield haccount heq
    obtain rfl := Write.remove.inj heq
    exact hnone item hitem field hfield haccount
  exact h.wrote hkept

/-- What the two deletions of `remove` leave. -/
theorem no_items (items : List (Text × Text)) (name : Text) :
    ∀ item ∈ (items.filter fun kv => kv.1 ≠ accountOf name (lit "password")).filter fun kv => kv.1 ≠ accountOf name (lit "totp"),
      ∀ field ∈ VALUE_FIELDS, item.1 ≠ accountOf name field := by
  intro item hitem field hfield
  simp only [List.mem_filter, decide_eq_true_eq] at hitem
  simp only [VALUE_FIELDS, List.mem_cons, List.not_mem_nil, or_false] at hfield
  rcases hfield with rfl | rfl
  · exact hitem.1.2
  · exact hitem.2

/-! ## Parts of a command, alone -/

/-- From `s` the part keeps the two places in step, and what it gives has `Q`. -/
def Keeps (Q : Store → α → Prop) (x : Cmd α) (s : Store) : Prop :=
  Solo.Keeps Sound (fun s r => ∀ a, r = .ok a → Q s a) (x : Prog Store (Except Raised α)) s

section Alone

variable {Q : Store → α → Prop}

theorem keeps_pure {a : α} (h : Q s a) : Keeps Q (pure a) s := by
  intro b hb
  obtain rfl := Except.ok.inj hb
  exact h

theorem keeps_throw (e : Raised) : Keeps Q (throw e) s := fun _ hb => (nomatch hb)

theorem keeps_bind {Q : Store → β → Prop} {x : Cmd α} {f : α → Cmd β} (h : Keeps (fun s a => Keeps Q (f a) s) x s) :
    Keeps Q (x >>= f) s := by
  refine Solo.Keeps.bind (p := (x : Prog Store (Except Raised α))) (h.mono fun t r hr => ?_)
  cases r with
  | ok a => exact hr a rfl
  | error e => exact fun _ hb => (nomatch hb)

theorem keeps_load {Q : Store → List Secret → Prop} (h : Q s s.catalogue) : Keeps Q _load s := keeps_pure h

theorem keeps_get {Q : Store → Option Text → Prop} {account : Text} (h : Q s (s.items.lookup account)) :
    Keeps Q (get_password account) s := keeps_pure h

/-- `_existing` gives the record of the name. -/
theorem keeps_existing {Q : Store → Secret → Prop} {name : Text}
    (h : ∀ secret, find s.catalogue name = some secret → Q s secret) : Keeps Q (_existing name) s := by
  refine keeps_bind (keeps_load ?_)
  split
  · next secret hfind => exact keeps_pure (h secret hfind)
  · exact keeps_throw _

/-- So does `_record`. -/
theorem keeps_record {Q : Store → Secret → Prop} {name : Text}
    (h : ∀ secret, find s.catalogue name = some secret → Q s secret) : Keeps Q (_record name) s := by
  refine keeps_bind (keeps_load ?_)
  split
  · next secret hfind => exact keeps_pure (h secret hfind)
  · exact keeps_throw _

/-- A record is put in as its write says. -/
theorem keeps_put {Q : Store → Unit → Prop} {write : Write} {secret : Secret}
    (heq : write.on s.catalogue = Saddlebag.put s.catalogue secret) (hwrite : ∀ name, write ≠ .remove name) (h : Sound s)
    (hQ : ∀ s', Q s' ()) : Keeps Q (put write secret) s := by
  refine keeps_bind (keeps_load ?_)
  rw [← heq]
  exact ⟨h.wrote fun _ _ name _ _ _ => hwrite name, fun _ _ => hQ _⟩

/-- A record that was found is changed as its write says. -/
theorem keeps_edit {Q : Store → Unit → Prop} (write : Write) {name : Text} {secret : Secret} (f : Secret → Secret)
    {secrets : List Secret} (hfind : find secrets name = some secret) (hon : write.on secrets = edit secrets name f)
    (hwrite : ∀ name, write ≠ .remove name) (h : Sound s) (hsecrets : s.catalogue = secrets) (hQ : ∀ s', Q s' ()) :
    Keeps Q (put write (f secret)) s := by
  subst hsecrets
  exact keeps_put (hon.trans (edit_eq hfind)) hwrite h hQ

theorem keeps_set {Q : Store → Unit → Prop} {account v : Text}
    (h : Sound { s with items := setKey account v s.items, history := s.history ++ [.stored account v] })
    (hQ : Q { s with items := setKey account v s.items, history := s.history ++ [.stored account v] } ()) :
    Keeps Q (set_password account v) s :=
  ⟨h, fun _ _ => hQ⟩

theorem keeps_delete {Q : Store → Unit → Prop} {name field : Text} (h : Sound s)
    (hQ : Q { s with items := s.items.filter fun kv => kv.1 ≠ accountOf name field } ()) : Keeps Q (_delete name field) s :=
  ⟨h.filtered _, fun _ _ => hQ⟩

theorem without_eq {name : Text} {keys : List Text} : ∀ {metadata remaining : List (Text × Text)},
    without name metadata keys = .ok remaining → remaining = metadata.filter fun kv => !keys.contains kv.1 := by
  induction keys with
  | nil =>
    intro metadata remaining h
    obtain rfl := Except.ok.inj h
    simp
  | cons key keys ih =>
    intro metadata remaining h
    unfold without at h
    rw [List.foldlM_cons] at h
    split at h
    · have hrest : without name (metadata.filter fun kv => kv.1 ≠ key) keys = .ok remaining := h
      rw [ih hrest, List.filter_filter]
      refine List.filter_congr fun kv _ => ?_
      by_cases hkey : kv.1 = key <;> simp [hkey]
    · cases h

/-- **Each command keeps the two places in step** when it is alone. -/
theorem keeps_program (c : Command) (h : Sound s) : Solo.Keeps Sound (fun _ _ => True) (program c) s := by
  have hdone : ∀ {s : Store}, Keeps (fun _ _ => True) (pure none : Cmd (Option Text)) s := keeps_pure trivial
  suffices hkeeps : Keeps (fun _ _ => True) (handler c) s from hkeeps.mono fun _ _ _ => trivial
  cases c with
  | create secret =>
    refine keeps_bind (keeps_load ?_)
    split
    · exact keeps_throw _
    · exact keeps_bind (keeps_put rfl (fun _ heq => (nomatch heq)) h fun _ => hdone)
  | set name field v hfield =>
    refine keeps_bind (keeps_existing fun _ _ => keeps_bind (keeps_bind (keeps_record fun secret hfind => ?_)))
    obtain ⟨hmem, hname⟩ := find_eq_some hfind
    have hstored := h.stored (v := v) hfield ⟨secret, hmem, hname⟩
    refine keeps_bind (keeps_set hstored ?_)
    exact keeps_edit (.set name field) (fun s => { s with fields := (s.fields ++ [field]).dedup }) hfind rfl
      (fun _ heq => (nomatch heq)) hstored rfl fun _ => hdone
  | unset name field =>
    refine keeps_bind (keeps_existing fun _ _ => keeps_bind (keeps_bind (keeps_record fun secret hfind => ?_)))
    refine keeps_bind (keeps_delete h ?_)
    exact keeps_edit (.unset name field) (fun s => { s with fields := s.fields.filter (· ≠ field) }) hfind rfl
      (fun _ heq => (nomatch heq)) (h.filtered _) rfl fun _ => hdone
  | remove name =>
    refine keeps_bind (keeps_existing fun _ _ => keeps_bind (keeps_bind ?_))
    refine keeps_bind (keeps_delete h (keeps_bind (keeps_delete (h.filtered _) (keeps_pure ?_))))
    have hremoved := ((h.filtered _).filtered _).removed (no_items s.items name)
    exact keeps_bind (keeps_load ⟨hremoved, fun _ _ => hdone⟩)
  | tag name tags =>
    refine keeps_bind (keeps_existing fun secret hfind => keeps_bind (keeps_bind (keeps_record fun again hagain => ?_)))
    obtain rfl := Option.some.inj (hfind.symm.trans hagain)
    exact keeps_edit (.tag name tags) (fun s => { s with tags := (s.tags ++ tags).dedup }) hfind rfl
      (fun _ heq => (nomatch heq)) h rfl fun _ => hdone
  | untag name tags =>
    refine keeps_bind (keeps_existing fun secret hfind => keeps_bind (keeps_bind (keeps_record fun again hagain => ?_)))
    obtain rfl := Option.some.inj (hfind.symm.trans hagain)
    exact keeps_edit (.untag name tags) (fun s => { s with tags := s.tags.filter fun tag => !tags.contains tag }) hfind rfl
      (fun _ heq => (nomatch heq)) h rfl fun _ => hdone
  | setMeta name given =>
    refine keeps_bind (keeps_existing fun secret hfind => keeps_bind (keeps_bind (keeps_record fun again hagain => ?_)))
    obtain rfl := Option.some.inj (hfind.symm.trans hagain)
    exact keeps_edit (.setMeta name given) (fun s => { s with metadata := given.foldl (fun d kv => setKey kv.1 kv.2 d) s.metadata }) hfind rfl
      (fun _ heq => (nomatch heq)) h rfl fun _ => hdone
  | unsetMeta name keys =>
    refine keeps_bind (keeps_existing fun secret hfind => keeps_bind ?_)
    intro remaining hremaining
    have heq := without_eq hremaining
    subst heq
    refine keeps_bind (keeps_bind (keeps_record fun again hagain => ?_))
    obtain rfl := Option.some.inj (hfind.symm.trans hagain)
    exact keeps_edit (.unsetMeta name keys) (fun s => { s with metadata := s.metadata.filter fun kv => !keys.contains kv.1 }) hfind rfl
      (fun _ heq => (nomatch heq)) h rfl fun _ => hdone
  | value name field =>
    refine keeps_bind (keeps_existing fun _ _ => ?_)
    unfold value
    split
    · exact keeps_bind (keeps_load (keeps_pure trivial))
    · split
      · exact keeps_bind (keeps_load (keeps_pure trivial))
      · exact keeps_get trivial

end Alone

/-! ## Answers, whatever the others do -/

/-- Whenever the part is through, what it gives has `A` for the store of that moment. -/
def Gives (A : Store → α → Prop) (x : Cmd α) (s : Store) : Prop :=
  Solo.Answers (fun s r => ∀ a, r = .ok a → A s a) (x : Prog Store (Except Raised α)) s

section Given

variable {A : Store → α → Prop}

theorem gives_pure {a : α} (h : A s a) : Gives A (pure a) s := by
  intro b hb
  obtain rfl := Except.ok.inj hb
  exact h

theorem gives_throw (e : Raised) : Gives A (throw e) s := fun _ hb => (nomatch hb)

theorem gives_bind {A : Store → β → Prop} {x : Cmd α} {f : α → Cmd β} (h : Gives (fun s a => Gives A (f a) s) x s) :
    Gives A (x >>= f) s := by
  refine Solo.Answers.bind (p := (x : Prog Store (Except Raised α))) (h.mono fun t r hr => ?_)
  cases r with
  | ok a => exact hr a rfl
  | error e => exact fun _ hb => (nomatch hb)

theorem gives_load {A : Store → List Secret → Prop} (h : ∀ s, A s s.catalogue) : Gives A _load s := fun t => gives_pure (h t)

theorem gives_existing {A : Store → Secret → Prop} {name : Text} (h : ∀ s secret, A s secret) : Gives A (_existing name) s := by
  refine gives_bind (gives_load fun t => ?_)
  split
  · next secret _ => exact gives_pure (h t secret)
  · exact gives_throw _

theorem gives_record {A : Store → Secret → Prop} {name : Text} (h : ∀ s secret, A s secret) : Gives A (_record name) s := by
  refine gives_bind (gives_load fun t => ?_)
  split
  · next secret _ => exact gives_pure (h t secret)
  · exact gives_throw _

/-- What a command that has written answers. -/
structure Answered (c : Command) (s : Store) (r : Option Text) : Prop where
  wrote : ∀ write, c.write = some write → s.history.getLast? = some (.wrote write)
  yields : ∀ name field v, c = .value name field → field ∈ VALUE_FIELDS → r = some v → (accountOf name field, v) ∈ s.items

/-- The last operation of a command that writes is its write. -/
theorem gives_put {A : Store → Unit → Prop} {write : Write} {secret : Secret}
    (h : ∀ s : Store, s.history.getLast? = some (.wrote write) → A s ()) : Gives A (put write secret) s :=
  gives_bind (gives_load fun _ _ _ _ => h _ List.getLast?_concat)

theorem gives_answered {c : Command} {write : Write} (hc : c.write = some write) (hvalue : ∀ name field, c ≠ .value name field)
    (h : s.history.getLast? = some (.wrote write)) : Gives (Answered c) (pure none : Cmd (Option Text)) s := by
  refine gives_pure ⟨fun write' hwrite' => ?_, fun name field _ heq => absurd heq (hvalue name field)⟩
  rw [hc] at hwrite'
  rwa [← Option.some.inj hwrite']

/-- **An answer ok says that the write was made**, and a value is one of an item. -/
theorem program_answers (c : Command) (s : Store) :
    Solo.Answers (fun s r => ∀ a, r = .ok a → Answered c s a) (program c) s := by
  suffices hgives : Gives (Answered c) (handler c) s from hgives
  have hdone : ∀ {c : Command} {write : Write}, c.write = some write → (∀ name field, c ≠ .value name field) →
      ∀ s : Store, s.history.getLast? = some (.wrote write) → Gives (Answered c) (pure none : Cmd (Option Text)) s :=
    fun hc hvalue s h => gives_answered hc hvalue h
  cases c with
  | create secret =>
    refine gives_bind (gives_load fun t => ?_)
    split
    · exact gives_throw _
    · exact gives_bind (gives_put (hdone rfl fun _ _ heq => (nomatch heq)))
  | set name field v hfield =>
    refine gives_bind (gives_existing fun _ _ => gives_bind (gives_bind (gives_record fun _ secret => ?_)))
    exact gives_bind fun _ _ _ => gives_put (hdone rfl fun _ _ heq => (nomatch heq))
  | unset name field =>
    refine gives_bind (gives_existing fun _ _ => gives_bind (gives_bind (gives_record fun _ secret => ?_)))
    have hput : ∀ t : Store, Gives (fun s _ => Gives (Answered (.unset name field)) (pure none) s)
        (put (.unset name field) { secret with fields := secret.fields.filter (· ≠ field) }) t :=
      fun _ => gives_put (hdone rfl fun _ _ heq => (nomatch heq))
    exact gives_bind fun t => ⟨fun _ _ => hput _, fun _ _ => hput _⟩
  | remove name =>
    refine gives_bind (gives_existing fun _ _ => gives_bind (gives_bind ?_))
    have hnone : ∀ s : Store, s.history.getLast? = some (.wrote (.remove name)) →
        Gives (Answered (.remove name)) (pure none) s := hdone rfl fun _ _ heq => (nomatch heq)
    have hdrop : ∀ t : Store, Gives (fun s _ => Gives (Answered (.remove name)) (pure none) s)
        (drop (.remove name) name) t := fun _ => gives_bind (gives_load fun _ _ _ _ => hnone _ List.getLast?_concat)
    have htotp : ∀ t : Store, Gives (fun s _ => Gives (fun s _ => Gives (Answered (.remove name)) (pure none) s)
        (drop (.remove name) name) s) (_delete name (lit "totp") >>= fun _ => pure ()) t := fun _ =>
      gives_bind fun _ => ⟨fun _ _ => gives_pure (hdrop _), fun _ _ => gives_pure (hdrop _)⟩
    exact gives_bind fun t => ⟨fun _ _ => htotp _, fun _ _ => htotp _⟩
  | tag name tags =>
    refine gives_bind (gives_existing fun _ _ => gives_bind (gives_bind (gives_record fun _ _ => ?_)))
    exact gives_put (hdone rfl fun _ _ heq => (nomatch heq))
  | untag name tags =>
    refine gives_bind (gives_existing fun _ _ => gives_bind (gives_bind (gives_record fun _ _ => ?_)))
    exact gives_put (hdone rfl fun _ _ heq => (nomatch heq))
  | setMeta name given =>
    refine gives_bind (gives_existing fun _ _ => gives_bind (gives_bind (gives_record fun _ _ => ?_)))
    exact gives_put (hdone rfl fun _ _ heq => (nomatch heq))
  | unsetMeta name keys =>
    refine gives_bind (gives_existing fun _ _ => gives_bind fun _ _ => gives_bind (gives_bind (gives_record fun _ _ => ?_)))
    exact gives_put (hdone rfl fun _ _ heq => (nomatch heq))
  | value name field =>
    refine gives_bind (gives_existing fun _ _ => ?_)
    have hother : field ∉ VALUE_FIELDS → ∀ t r, Gives (Answered (.value name field)) (pure r : Cmd (Option Text)) t :=
      fun hno t r => gives_pure ⟨fun _ hwrite => (nomatch hwrite), fun name' field' _ heq hfield => by
        obtain ⟨-, rfl⟩ := Command.value.inj heq
        exact absurd hfield hno⟩
    unfold value
    split
    · next huser =>
      have hno : field ∉ VALUE_FIELDS := by
        rw [huser]
        decide
      exact gives_bind (gives_load fun t => hother hno t _)
    · split
      · next hmeta => exact gives_bind (gives_load fun t => hother (meta_not_value hmeta) t _)
      · refine fun t => gives_pure ⟨fun _ hwrite => (nomatch hwrite), fun name' field' v heq _ hv => ?_⟩
        obtain ⟨rfl, rfl⟩ := Command.value.inj heq
        obtain ⟨before, after, hsplit, -⟩ := List.lookup_eq_some_iff.1 hv
        rw [hsplit]
        exact List.mem_append_right _ List.mem_cons_self

end Given

/-! ## The same as the calls of the shelf -/

section Matches

variable {ε : Type} {B : Backend ε}

/-- Alone, the part does what the call does. -/
def Matches (x : Cmd α) (m : Call (Shelf ε) α) : Prop := ∀ (s : Store) (e : ε), ∃ e',
  TwoRun.outcome m ⟨s.catalogue, s.items, e⟩ =
    (((x : Prog Store (Except Raised α)).alone s).2,
      ⟨((x : Prog Store (Except Raised α)).alone s).1.catalogue, ((x : Prog Store (Except Raised α)).alone s).1.items, e'⟩)

theorem matches_of_does {x : Cmd α} {m : Call (Shelf ε) α}
    (h : ∀ s e, ∃ a, ((x : Prog Store (Except Raised α)).alone s).2 = .ok a ∧ Does m ⟨s.catalogue, s.items, e⟩ a
      ((x : Prog Store (Except Raised α)).alone s).1.catalogue ((x : Prog Store (Except Raised α)).alone s).1.items) :
    Matches x m := by
  intro s e
  obtain ⟨a, ha, e', he'⟩ := h s e
  exact ⟨e', by rw [ha, he']⟩

theorem matches_bind {x : Cmd α} {m : Call (Shelf ε) α} {f : α → Cmd β} {g : α → Call (Shelf ε) β} (h : Matches x m)
    (hfg : ∀ a, Matches (f a) (g a)) : Matches (x >>= f) (m >>= g) := by
  intro s e
  obtain ⟨e', he'⟩ := h s e
  have halone : ((x >>= f : Cmd β) : Prog Store (Except Raised β)).alone s =
      ((ExceptT.bindCont f ((x : Prog Store (Except Raised α)).alone s).2 : Prog Store (Except Raised β))).alone
        ((x : Prog Store (Except Raised α)).alone s).1 := Solo.alone_bind s
  rw [TwoRun.outcome_bind, he', halone]
  cases ((x : Prog Store (Except Raised α)).alone s).2 with
  | ok a => exact hfg a _ e'
  | error err => exact ⟨e', rfl⟩

variable (hB : Obliging B)
include hB

theorem matches_load : Matches _load (load B) := matches_of_does fun s _ => ⟨s.catalogue, rfl, does_load hB _⟩

theorem matches_save (write : Write) (f : List Secret → List Secret) :
    Matches (do let secrets ← _load; _save write (f secrets)) (save B f) :=
  matches_of_does fun _ _ => ⟨(), rfl, does_save hB f _⟩

theorem matches_get (account : Text) : Matches (get_password account) (Saddlebag.get_password B account) :=
  matches_of_does fun s _ => ⟨s.items.lookup account, rfl, does_get_password hB account _⟩

theorem matches_set (account v : Text) : Matches (set_password account v) (Saddlebag.set_password B account v) :=
  matches_of_does fun _ _ => ⟨(), rfl, does_set_password hB account v _⟩

theorem matches_delete (name field : Text) : Matches (_delete name field) (delete_password B (accountOf name field)) :=
  matches_of_does fun _ _ => ⟨(), rfl, does_delete_password hB _ _⟩

omit hB in
theorem matches_pure (a : α) : Matches (pure a) (pure a : Call (Shelf ε) α) := fun _ e => ⟨e, rfl⟩

omit hB in
theorem matches_throw (err : Raised) : Matches (throw err : Cmd α) (throw err : Call (Shelf ε) α) := fun _ e => ⟨e, rfl⟩

theorem matches_record (name : Text) : Matches (_record name) (KeyringStore.record B name) := by
  unfold _record KeyringStore.record KeyringStore.get
  rw [bind_assoc]
  refine matches_bind (matches_load hB) fun secrets => ?_
  rw [pure_bind]
  cases find secrets name with
  | some secret => exact matches_pure secret
  | none => exact matches_throw _

/-- **Alone, each part of a command does what the call of the shelf does.** -/
theorem matches_store (name field v : Text) (secret : Secret) (write : Write) (tags : List Tag) (metadata : List (Text × Text)) :
    Matches (put write (bare secret)) ((keyringStore B).create secret) ∧
    Matches (set_value name field v) ((keyringStore B).set_value name field v) ∧
    Matches (unset_value name field) ((keyringStore B).unset_value name field) ∧
    Matches (remove name) ((keyringStore B).remove name) ∧
    Matches (value name field) ((keyringStore B).value name field) ∧
    Matches (retag write name tags) ((keyringStore B).retag name tags) ∧
    Matches (set_metadata write name metadata) ((keyringStore B).set_metadata name metadata) := by
  refine ⟨matches_save hB write _, ?_, ?_, ?_, ?_, ?_, ?_⟩
  · refine matches_bind (matches_record hB name) fun secret => matches_bind (matches_set hB _ v) fun _ => ?_
    exact matches_save hB _ _
  · refine matches_bind (matches_record hB name) fun secret => matches_bind (matches_delete hB name field) fun _ => ?_
    exact matches_save hB _ _
  · refine matches_bind (matches_bind (matches_delete hB name _) fun _ => ?_) fun _ => matches_save hB _ _
    exact matches_bind (matches_delete hB name _) fun _ => matches_pure _
  · show Matches (value name field) (KeyringStore.value B name field)
    unfold value KeyringStore.value KeyringStore.get
    split
    · rw [bind_assoc]
      exact matches_bind (matches_load hB) fun secrets => matches_pure _
    · split
      · rw [bind_assoc]
        exact matches_bind (matches_load hB) fun secrets => matches_pure _
      · exact matches_get hB _
  · exact matches_bind (matches_record hB name) fun secret => matches_save hB _ _
  · exact matches_bind (matches_record hB name) fun secret => matches_save hB _ _

end Matches

/-! ## The shelf -/

section InStep

variable {es : List (Solo.Event Command)} {t : Solo.Sys Command Store (Except Raised (Option Text))}

theorem writes_split {pre post : List Entry} {write : Write} :
    writes (pre ++ .wrote write :: post) = writes pre ++ write :: writes post := by
  simp [writes]

theorem mem_writes {history : List Entry} {write : Write} : write ∈ writes history ↔ .wrote write ∈ history := by
  unfold writes
  rw [List.mem_filterMap]
  constructor
  · rintro ⟨e, he, hwrite⟩
    cases e with
    | wrote w =>
      obtain rfl := Option.some.inj hwrite
      exact he
    | stored account v => cases hwrite
  · exact fun h => ⟨_, h, rfl⟩

theorem sound_empty : Sound empty := ⟨rfl, fun _ h => absurd h List.not_mem_nil⟩

/-- **The keyring shelf loses no record and hides no value**, when no process changes it between the
first read of another and its last change, and a `PasswordDeleteError` means that there is no item:
the catalogue is what the answered commands leave one after another, so that each record is as its
last write has left it; an answer ok says that the write was made; what is yielded was stored since
the last removal of the name. `health` tells what is out of step, in any state; and to requests one
after another the keyring and Vault reply the same, but for `doctor`. -/
theorem shelf_in_step {ε σ : Type} {B B' : Backend ε} {doors : Doors σ} {counter : Counter}
    (hB : Obliging B) (hB' : Obliging B') (hlist : ∀ held e, (B.accounts held e).1 = .ok (some held))
    (halone : Run.Along (Solo.step program) Solo.Undisturbed (Solo.start empty) es)
    (hrun : Run.run (Solo.step program) (Solo.start empty) es = some t) :
    (∀ pre write post, t.shared.history = pre ++ .wrote write :: post →
      (∀ later, .wrote later ∈ post → later.name ≠ write.name) →
        find t.shared.catalogue write.name = find (write.on ((writes pre).foldl Write.on [])) write.name) ∧
    (∀ es' i c base r, es = es' ++ [.act i] → t.at i = some ⟨c, base, .done (.ok r)⟩ →
      (∀ write, c.write = some write → t.shared.history.getLast? = some (.wrote write)) ∧
      ∀ name field v, c = .value name field → field ∈ VALUE_FIELDS → r = some v →
        ∀ pre post, t.shared.history = pre ++ .wrote (.remove name) :: post → .stored (accountOf name field) v ∈ post) ∧
    (∀ e, Does (KeyringStore.health B) ⟨t.shared.catalogue, t.shared.items, e⟩
        (healthOf B t.shared.catalogue t.shared.items) t.shared.catalogue t.shared.items ∧
      Reports t.shared.catalogue t.shared.items (healthOf B t.shared.catalogue t.shared.items)) ∧
    ∀ (requests : List Request) (e e' : ε) (world : σ) (log : List Text), (∀ request ∈ requests, request.verb ≠ lit "doctor") →
      (serve (keyringStore B) doors counter requests ⟨⟨[], [], e⟩, world, log⟩).1 =
        (serve (vaultStore B') doors counter requests ⟨⟨[], [], e'⟩, world, log⟩).1 := by
  have hsound : Sound t.shared := Solo.kept (fun c s hs => keeps_program c hs) sound_empty halone hrun
  refine ⟨fun pre write post hsplit hlater => ?_, fun es' i c base r hes hat => ?_,
    fun e => ⟨does_health hB hlist, health_reports B _ _⟩, fun requests e e' world log hdoctor => ?_⟩
  · rw [hsound.catalogue, hsplit, writes_split, List.foldl_append, List.foldl_cons]
    exact find_last write _ fun w hw => hlater w (mem_writes.1 hw)
  · subst hes
    have hanswered := Solo.answered (A := fun c s r => ∀ a, r = .ok a → Answered c s a) program_answers hrun hat r rfl
    refine ⟨hanswered.wrote, fun name field v hc hfield hr pre post hsplit => ?_⟩
    have hitem := hanswered.yields name field v hc hfield hr
    obtain ⟨name', field', hfield', haccount, -, hstored⟩ := hsound.items _ hitem
    obtain ⟨rfl, rfl⟩ := (accountOf_eq hfield hfield').1 haccount
    exact mem_since hstored hsplit
  · exact replies_same hB hB' hdoctor ⟨sameSecrets_empty e e', rfl, rfl⟩

end InStep

/-- A record is created and gets its password, while another process asks for it. -/
def loginRun : List (Solo.Event Command) :=
  [.start (.create { name := lit "login" }), .act 0, .act 0, .act 0,
    .start (.set (lit "login") (lit "password") (lit "horse") (by decide)), .start (.value (lit "login") (lit "password")),
    .act 1, .act 2, .act 1, .act 1, .act 2, .act 1, .act 1]

theorem obliging_quiet : Obliging quietBackend := ⟨fun _ _ => rfl, fun _ _ _ => rfl⟩

theorem shelf_in_step_login : ∃ t, Run.run (Solo.step program) (Solo.start empty) loginRun = some t ∧
    find t.shared.catalogue (lit "login") = some { name := lit "login", fields := [lit "password"] } ∧
    t.shared.history.getLast? = some (.wrote (.set (lit "login") (lit "password"))) ∧
    Reports t.shared.catalogue t.shared.items (healthOf quietBackend t.shared.catalogue t.shared.items) ∧
    (serve (keyringStore quietBackend) quietDoors quietCounter [envRequest] ⟨⟨[], [], ()⟩, (), []⟩).1 =
      (serve (vaultStore quietBackend) quietDoors quietCounter [envRequest] ⟨⟨[], [], ()⟩, (), []⟩).1 := by
  have hseen : (Run.run (Solo.step program) (Solo.start empty) loginRun).map (fun t => (t.shared.history, t.at 1)) =
      some ([.wrote (.create { name := lit "login" }), .stored (accountOf (lit "login") (lit "password")) (lit "horse"),
          .wrote (.set (lit "login") (lit "password"))],
        some ⟨.set (lit "login") (lit "password") (lit "horse") (by decide), 3, .done (.ok none)⟩) := by rfl
  obtain ⟨t, hrun, hseen⟩ := Option.map_eq_some_iff.1 hseen
  obtain ⟨hhistory, hat⟩ := Prod.mk.inj hseen
  obtain ⟨hrecords, hanswers, hhealth, hreplies⟩ := @shelf_in_step loginRun t Unit Unit quietBackend quietBackend quietDoors
    quietCounter obliging_quiet obliging_quiet (fun _ _ => rfl) (by decide) hrun
  refine ⟨t, hrun, ?_, (hanswers loginRun.dropLast 1 _ _ _ rfl hat).1 _ rfl, (hhealth ()).2,
    hreplies [envRequest] () () () [] (by decide)⟩
  refine (hrecords [.wrote (.create { name := lit "login" }), .stored (accountOf (lit "login") (lit "password")) (lit "horse")]
    (.set (lit "login") (lit "password")) [] hhistory fun _ h => absurd h List.not_mem_nil).trans ?_
  decide

/-- A second process that has read the catalogue before. -/
def lostRun : List (Solo.Event Command) :=
  [.start (.create { name := lit "login" }), .start (.create { name := lit "card" }),
    .act 0, .act 0, .act 1, .act 1, .act 0, .act 1]

/-- A keyring that does not let an item go. -/
def lockedRun : List (Solo.Event Command) :=
  [.start (.create { name := lit "login" }), .act 0, .act 0, .act 0,
    .start (.set (lit "login") (lit "password") (lit "horse") (by decide)), .act 1, .act 1, .act 1, .act 1, .act 1,
    .start (.remove (lit "login")), .act 2, .miss 2, .miss 2, .act 2, .act 2,
    .start (.create { name := lit "login" }), .act 3, .act 3, .act 3,
    .start (.value (lit "login") (lit "password")), .act 4, .act 4]

/-- **A record is lost when two processes have read the catalogue**, a removal that the keyring refuses leaves
the old value to the next record of the name, and `doctor` tells the two stores apart. -/
theorem second_create_loses_first :
    ((Run.run (Solo.step program) (Solo.start empty) lostRun).map fun t => (t.at 0, t.at 1, t.shared.catalogue)) =
      some (some ⟨.create { name := lit "login" }, 1, .done (.ok none)⟩, some ⟨.create { name := lit "card" }, 1, .done (.ok none)⟩,
        [{ name := lit "card" }]) ∧
    ((Run.run (Solo.step program) (Solo.start empty) lockedRun).map fun t => t.at 4) =
      some (some ⟨.value (lit "login") (lit "password"), 5, .done (.ok (some (lit "horse")))⟩) ∧
    (serve (keyringStore quietBackend) quietDoors quietCounter [⟨lit "doctor", []⟩] ⟨⟨[], [], ()⟩, (), []⟩).1 ≠
      (serve (vaultStore quietBackend) quietDoors quietCounter [⟨lit "doctor", []⟩] ⟨⟨[], [], ()⟩, (), []⟩).1 := by
  refine ⟨rfl, rfl, fun heq => ?_⟩
  have hbackend := congrArg (fun replies : List Reply => replies.map fun r => strOf (argument r.result (lit "backend"))) heq
  revert hbackend
  decide

end Stablemate.Saddlebag.Commands
