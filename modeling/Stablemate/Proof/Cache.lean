import Stablemate.Model.Cache
import Stablemate.Proof.Text

/-!
# What the caches give

A slot is what can hold nodes for a page: a path in a process, or an entry of an index directory.

* `Meets`: the nodes of a page are the same in all slots that a read goes through.
* `Good`: what the caches of a process and the index directories hold.
* `reads_are_direct`: **every read of a run gives what parsing the present bytes gives**, if each
  event meets that.
-/

namespace Stablemate.Cache

variable {κ σ ν : Type}

/-! ## Slots -/

inductive Slot
  | process (pid : ℕ) (path : Text)
  | entry (place : Text × Text)

section Condition

variable (sha : List Bytes → Text) (epochOf : Files → Text → Text) (parser : Parser κ σ ν)

/-- The slots that a read of a page goes through. -/
def Here.slots (here : Here κ σ ν) (pid : ℕ) (path : Text) (data : Bytes) : List Slot :=
  .process pid path :: (here.entry sha epochOf path (content_sha sha data)).toList.map .entry

/-- `V` tells the nodes that are meant by the slots for a text, none where its parse raises. An event
meets that if a damaged entry does not load, the slots that a read goes through mean one thing, and
the nodes that are asked for are these. -/
def Meets (V : Slot → Bytes → Option (List ν)) (w : World κ σ ν) : Event κ σ ν → Prop
  | .entry _ entry => ∀ e ∈ entry, e.read = none
  | .read_doc pid path _ | .read_links pid path _ _ => ∀ data ∈ w.files.read_bytes path,
      ∀ slot ∈ (w.here pid).slots sha epochOf pid path data, V slot data = V (.process pid path) data
  | .feature_doc pid path root _ _ => ∀ data ∈ w.files.read_bytes path,
      (∀ slot ∈ (w.here pid).slots sha epochOf pid path data, V slot data = V (.process pid path) data) ∧
        ∀ doc ∈ parser.split data, V (.process pid path) data = parser.parse_ui_nodes doc path root
  | _ => True

/-- Each read of a run gives what parsing the present bytes gives. -/
def Transparent (files : Files) (es : List (Event κ σ ν)) : Prop :=
  ∀ es' e w, es' ++ [e] <+: es → Run.run (step sha epochOf parser) (init files) es' = some w →
    (w.perform sha epochOf parser e).1 = direct parser w.files e

end Condition

variable {sha : List Bytes → Text} {epochOf : Files → Text → Text} {parser : Parser κ σ ν}
  {V : Slot → Bytes → Option (List ν)} {pid : ℕ} {path digest : Text} {data : Bytes} {source : ℕ → Bytes}
  {here here' : Here κ σ ν} {cached : Cached κ σ ν} {payload : Products κ σ ν} {slot slot' : Slot} {written : Bool}

/-! ## What is held of a text -/

/-- Products of a text, held in a slot. -/
structure Of (parser : Parser κ σ ν) (V : Slot → Bytes → Option (List ν)) (slot : Slot) (data : Bytes)
    (payload : Products κ σ ν) : Prop where
  doc : parser.split data = some (doc_from_products payload)
  links : ∀ links ∈ payload.links, links = parser.iter_links data
  nodes : ∀ nodes ∈ payload.ui_nodes, ∃ rest, V slot data = some rest ∧ nodes = rest.map fun node => ⟨".".toList, node⟩

theorem Of.move (h : Of parser V slot data payload) (hV : V slot' data = V slot data) : Of parser V slot' data payload :=
  ⟨h.doc, h.links, fun nodes hnodes => hV ▸ h.nodes nodes hnodes⟩

/-- The index directories hold products of texts, under the digests of these. -/
def GoodIndex (sha : List Bytes → Text) (parser : Parser κ σ ν) (V : Slot → Bytes → Option (List ν))
    (index : Index κ σ ν) : Prop :=
  ∀ place payload, (index place).bind Entry.read = some payload →
    ∃ data epoch name, place.2 = sha [epoch, name, (content_sha sha data).utf8] ∧ Of parser V (.entry place) data payload

/-- A process holds products of texts too, the document `n` being made of `source n`. -/
structure GoodProcess (sha : List Bytes → Text) (parser : Parser κ σ ν) (V : Slot → Bytes → Option (List ν)) (pid : ℕ)
    (source : ℕ → Bytes) (process : Process κ σ ν) : Prop where
  docs : ∀ path cached, process.docCache path = some cached → cached.doc.number < process.made ∧
    cached.digest = content_sha sha (source cached.doc.number) ∧
    Of parser V (.process pid path) (source cached.doc.number) cached.products
  features : ∀ path doc frontmatter nodes, process.featureDocCache path = some (doc, frontmatter, nodes) →
    doc.number < process.made ∧ parser.split (source doc.number) = some doc.doc ∧ frontmatter = doc.doc.frontmatter.getD [] ∧
    ∃ rest, V (.process pid path) (source doc.number) = some rest ∧ nodes = rest.map fun node => ⟨path, node⟩

structure Good (sha : List Bytes → Text) (parser : Parser κ σ ν) (V : Slot → Bytes → Option (List ν)) (pid : ℕ)
    (source : ℕ → Bytes) (here : Here κ σ ν) : Prop where
  index : GoodIndex sha parser V here.index
  process : GoodProcess sha parser V pid source here.process

/-- A read leaves the files and the slots of every text where they are. -/
structure Frame (sha : List Bytes → Text) (epochOf : Files → Text → Text) (here here' : Here κ σ ν) : Prop where
  files : here'.files = here.files
  active : here'.process.active = here.process.active
  entry : ∀ path digest, here'.entry sha epochOf path digest = here.entry sha epochOf path digest

theorem Frame.refl (here : Here κ σ ν) : Frame sha epochOf here here := ⟨rfl, rfl, fun _ _ => rfl⟩

theorem Frame.trans {here'' : Here κ σ ν} (h : Frame sha epochOf here here') (h' : Frame sha epochOf here' here'') :
    Frame sha epochOf here here'' :=
  ⟨h'.files.trans h.files, h'.active.trans h.active, fun path digest => (h'.entry path digest).trans (h.entry path digest)⟩

theorem Frame.slots (h : Frame sha epochOf here here') (pid : ℕ) (path : Text) (data : Bytes) :
    here'.slots sha epochOf pid path data = here.slots sha epochOf pid path data := by
  unfold Here.slots
  rw [h.entry]

/-! ## The store -/

theorem epoch_asked (files : Files) (store : IndexStore) (path : Text) :
    (store.asked epochOf files path).epoch epochOf files = store.epoch epochOf files := rfl

theorem realRoot_asked (files : Files) (store : IndexStore) (path : Text) :
    (store.asked epochOf files path).realRoot files = store.realRoot files := by
  unfold IndexStore.asked IndexStore.realRoot
  dsimp only
  split
  · cases store._real_root with
    | none =>
      rw [Option.none_or]
      cases files.realpath store.root <;> rfl
    | some root => rfl
  · rfl

/-- To name an entry does not change what an entry is named. -/
theorem key_asked (files : Files) (store : IndexStore) (asked path digest : Text) :
    key sha epochOf files (store.asked epochOf files asked) path digest = key sha epochOf files store path digest := by
  unfold key entry_name
  rw [epoch_asked, realRoot_asked]

theorem store_asked (here : Here κ σ ν) (asked : Text) : (here.asked epochOf asked).process.store =
    here.process.store.map fun store => store.asked epochOf here.files asked := by
  unfold Here.asked Process.store
  dsimp only
  cases here.process.active with
  | none => rfl
  | some i =>
    rw [Option.bind_some, Option.bind_some, List.getElem?_modify_eq]
    rfl

theorem frame_asked (here : Here κ σ ν) (asked : Text) : Frame sha epochOf here (here.asked epochOf asked) := by
  refine ⟨rfl, rfl, fun path digest => ?_⟩
  unfold Here.entry
  rw [store_asked]
  cases here.process.store with
  | none => rfl
  | some store =>
    rw [Option.map_some, Option.bind_some, Option.bind_some, show (here.asked epochOf asked).files = here.files from rfl,
      key_asked]
    rfl

theorem frame_put (here : Here κ σ ν) (path : Text) (value : Products κ σ ν) (digest : Text) (written : Bool) :
    Frame sha epochOf here (here.put sha epochOf path value digest written) := by
  have hasked : Frame sha epochOf here (here.asked epochOf path) := frame_asked here path
  unfold Here.put
  split
  · split
    · exact ⟨hasked.files, hasked.active, hasked.entry⟩
    · exact hasked
  · exact hasked

theorem frame_persist (here : Here κ σ ν) (path : Text) (cached : Cached κ σ ν) (written : Bool) :
    Frame sha epochOf here (here.persist sha epochOf path cached written) := by
  unfold Here.persist
  split
  · exact ⟨rfl, rfl, fun _ _ => rfl⟩
  · have hput : Frame sha epochOf here _ := frame_put here path cached.products cached.digest written
    exact ⟨hput.files, hput.active, hput.entry⟩

/-! ## What a read leaves -/

variable (epochOf) in
theorem Good.asked (h : Good sha parser V pid source here) (path : Text) :
    Good sha parser V pid source (here.asked epochOf path) :=
  ⟨h.index, h.process.docs, h.process.features⟩

/-- One more document, made of `data`. -/
theorem Good.make (h : Good sha parser V pid source here) (data : Bytes) :
    Good sha parser V pid (Function.update source here.process.made data) here.make := by
  have hold : ∀ n, n < here.process.made → Function.update source here.process.made data n = source n :=
    fun n hn => Function.update_of_ne (Nat.ne_of_lt hn) _ _
  refine ⟨h.index, fun path cached hcached => ?_, fun path doc frontmatter nodes hdoc => ?_⟩
  · obtain ⟨hlt, hrest⟩ := h.process.docs path cached hcached
    rw [hold _ hlt]
    exact ⟨Nat.lt_succ_of_lt hlt, hrest⟩
  · obtain ⟨hlt, hrest⟩ := h.process.features path doc frontmatter nodes hdoc
    rw [hold _ hlt]
    exact ⟨Nat.lt_succ_of_lt hlt, hrest⟩

theorem docCache_cache (here : Here κ σ ν) (path : Text) (cached : Cached κ σ ν) :
    (here.cache path cached).process.docCache = Function.update here.process.docCache path (some cached) := rfl

theorem Good.cache (h : Good sha parser V pid source here) (hlt : cached.doc.number < here.process.made)
    (hdigest : cached.digest = content_sha sha (source cached.doc.number))
    (hof : Of parser V (.process pid path) (source cached.doc.number) cached.products) :
    Good sha parser V pid source (here.cache path cached) := by
  refine ⟨h.index, fun p c hc => ?_, h.process.features⟩
  rw [docCache_cache] at hc
  by_cases hp : p = path
  · subst hp
    rw [Function.update_self] at hc
    obtain rfl := Option.some.inj hc
    exact ⟨hlt, hdigest, hof⟩
  · rw [Function.update_of_ne hp] at hc
    exact h.process.docs p c hc

theorem Good.put (h : Good sha parser V pid source here)
    (hof : ∀ place ∈ here.entry sha epochOf path (content_sha sha data), Of parser V (.entry place) data payload) :
    Good sha parser V pid source (here.put sha epochOf path payload (content_sha sha data) written) := by
  unfold Here.put
  cases hentry : here.entry sha epochOf path (content_sha sha data) with
  | none => exact h.asked epochOf path
  | some place =>
    cases written with
    | false => exact h.asked epochOf path
    | true =>
      dsimp only
      rw [if_pos rfl]
      refine ⟨fun place' payload' hread => ?_, h.process.docs, h.process.features⟩
      dsimp only at hread
      by_cases hplace : place' = place
      · subst hplace
        rw [Function.update_self, Option.bind_some] at hread
        obtain rfl := Option.some.inj hread
        -- the key of the entry has the digest of the text in it
        have hplaced := hof _ hentry
        unfold Here.entry at hentry
        obtain ⟨store, -, hstore⟩ := Option.bind_eq_some_iff.1 hentry
        split at hstore
        · refine ⟨data, (store.epoch epochOf here.files).utf8, (entry_name here.files store path).utf8, ?_, hplaced⟩
          rw [← Option.some.inj hstore]
          rfl
        · cases hstore
      · rw [Function.update_of_ne hplace] at hread
        exact h.index place' payload' hread

theorem made_put (here : Here κ σ ν) (path : Text) (payload : Products κ σ ν) (digest : Text) (written : Bool) :
    (here.put sha epochOf path payload digest written).process.made = here.process.made := by
  unfold Here.put
  split
  · split <;> rfl
  · rfl

/-- The slots that a read of the page goes through mean one thing. -/
def Ready (sha : List Bytes → Text) (epochOf : Files → Text → Text) (V : Slot → Bytes → Option (List ν)) (pid : ℕ)
    (here : Here κ σ ν) (path : Text) (data : Bytes) : Prop :=
  ∀ slot ∈ here.slots sha epochOf pid path data, V slot data = V (.process pid path) data

theorem Ready.frame (h : Ready sha epochOf V pid here path data) (hframe : Frame sha epochOf here here') :
    Ready sha epochOf V pid here' path data := by
  unfold Ready
  rw [hframe.slots]
  exact h

theorem Ready.entry (h : Ready sha epochOf V pid here path data) :
    ∀ place ∈ here.entry sha epochOf path (content_sha sha data), V (.entry place) data = V (.process pid path) data := by
  intro place hplace
  refine h _ (List.mem_cons_of_mem _ (List.mem_map_of_mem ?_))
  rw [Option.mem_toList]
  exact hplace

variable (cached written) in
/-- `_persist` keeps what is cached, and an entry for it. -/
theorem Good.persist (h : Good sha parser V pid source here) (hready : Ready sha epochOf V pid here path (source cached.doc.number))
    (hlt : cached.doc.number < here.process.made) (hdigest : cached.digest = content_sha sha (source cached.doc.number))
    (hof : Of parser V (.process pid path) (source cached.doc.number) cached.products) :
    Good sha parser V pid source (here.persist sha epochOf path cached written) ∧
    ∃ cached', (here.persist sha epochOf path cached written).process.docCache path = some cached' ∧ cached'.doc = cached.doc := by
  unfold Here.persist
  split
  · exact ⟨h.cache hlt hdigest hof, cached, by rw [docCache_cache, Function.update_self], rfl⟩
  · rename_i i _
    have hput : Good sha parser V pid source (here.put sha epochOf path cached.products cached.digest written) := by
      rw [hdigest]
      exact h.put fun place hplace => hof.move (hready.entry place hplace)
    refine ⟨hput.cache ?_ hdigest hof, { cached with store := some i }, by rw [docCache_cache, Function.update_self], rfl⟩
    rw [made_put]
    exact hlt

/-- What the store gives are products of the text. -/
theorem get_some (hsha : Function.Injective sha) (h : GoodIndex sha parser V here.index) (hready : Ready sha epochOf V pid here path data)
    (hget : here.get sha epochOf path (content_sha sha data) = some payload) : Of parser V (.process pid path) data payload := by
  unfold Here.get at hget
  obtain ⟨place, hentry, hread⟩ := Option.bind_eq_some_iff.1 hget
  obtain ⟨text, epoch, name, hkey, hof⟩ := h place payload hread
  have htext : text = data := by
    unfold Here.entry at hentry
    obtain ⟨store, -, hstore⟩ := Option.bind_eq_some_iff.1 hentry
    split at hstore
    · rw [← Option.some.inj hstore] at hkey
      have hchunks := hsha hkey
      simp only [List.cons.injEq, and_true] at hchunks
      exact (List.singleton_injective (hsha (Text.utf8_injective hchunks.2.2))).symm
    · cases hstore
  subst htext
  exact hof.move (hready.entry place hentry).symm

/-- What `read_doc` does: the document is made of the text and is in the cache. -/
structure Reads (sha : List Bytes → Text) (epochOf : Files → Text → Text) (parser : Parser κ σ ν)
    (V : Slot → Bytes → Option (List ν)) (pid : ℕ) (here : Here κ σ ν) (path : Text) (data : Bytes)
    (result : Option (Object κ σ) × Here κ σ ν) : Prop where
  frame : Frame sha epochOf here result.2
  answer : result.1.map (·.doc) = parser.split data
  good : ∃ source, Good sha parser V pid source result.2 ∧ ∀ doc ∈ result.1, source doc.number = data ∧
    ∃ cached, result.2.process.docCache path = some cached ∧ cached.doc = doc

theorem read_products_spec (hsha : Function.Injective sha) (h : Good sha parser V pid source here)
    (hready : Ready sha epochOf V pid here path data) :
    Reads sha epochOf parser V pid here path data
      (read_products sha epochOf parser here path data (content_sha sha data) written) := by
  have hframe : Frame sha epochOf here (here.asked epochOf path).make :=
    let hasked : Frame sha epochOf here (here.asked epochOf path) := frame_asked here path
    ⟨hasked.files, hasked.active, hasked.entry⟩
  have hmade : Good sha parser V pid (Function.update source here.process.made data) (here.asked epochOf path).make :=
    (h.asked epochOf path).make data
  have hsource : Function.update source here.process.made data here.process.made = data := Function.update_self ..
  have hlt : here.process.made < (here.asked epochOf path).make.process.made := Nat.lt_succ_self _
  unfold read_products
  cases hget : here.get sha epochOf path (content_sha sha data) with
  | some payload =>
    have hof := get_some hsha h.index hready hget
    refine ⟨⟨hframe.files, hframe.active, hframe.entry⟩, hof.doc.symm, _, hmade.cache hlt ?_ ?_, ?_⟩
    · rw [hsource]
    · rw [hsource]
      exact hof
    · rintro doc hdoc
      obtain rfl := Option.some.inj hdoc
      exact ⟨hsource, _, by rw [docCache_cache, Function.update_self], rfl⟩
  | none =>
    cases hsplit : parser.split data with
    | none =>
      refine ⟨frame_asked here path, hsplit.symm, source, h.asked epochOf path, fun doc hdoc => ?_⟩
      cases hdoc
    | some parsed =>
      have hof : Of parser V (.process pid path) data
          (⟨content_sha sha data, ⟨here.process.made, parsed⟩, here.process.active, none, none⟩ : Cached κ σ ν).products :=
        ⟨hsplit, fun links hlinks => (nomatch hlinks), fun nodes hnodes => (nomatch hnodes)⟩
      obtain ⟨hgood, hcached⟩ := hmade.persist
        (⟨content_sha sha data, ⟨here.process.made, parsed⟩, here.process.active, none, none⟩ : Cached κ σ ν) written
        (by rw [hsource]; exact hready.frame hframe) hlt (by rw [hsource]) (by rw [hsource]; exact hof)
      refine ⟨hframe.trans (frame_persist ..), hsplit.symm, _, hgood, ?_⟩
      rintro doc hdoc
      obtain rfl := Option.some.inj hdoc
      exact ⟨hsource, hcached⟩

variable (written) in
theorem read_doc_spec (hsha : Function.Injective sha) (h : Good sha parser V pid source here)
    (hread : here.files.read_bytes path = some data) (hready : Ready sha epochOf V pid here path data) :
    Reads sha epochOf parser V pid here path data (read_doc sha epochOf parser here path written) := by
  unfold read_doc
  rw [hread]
  dsimp only
  split
  · rename_i cached hcached
    split
    · rename_i hvalid
      obtain ⟨-, hdigest, hof⟩ := h.process.docs path cached hcached
      have hsource : source cached.doc.number = data :=
        List.singleton_injective (hsha (hdigest.symm.trans hvalid.1))
      rw [hsource] at hof
      refine ⟨Frame.refl here, hof.doc.symm, source, h, ?_⟩
      rintro doc hdoc
      obtain rfl := Option.some.inj hdoc
      exact ⟨hsource, cached, hcached, rfl⟩
    · exact read_products_spec hsha h hready
  · exact read_products_spec hsha h hready

/-- A file that is not there raises. -/
theorem read_doc_missing (hnone : here.files.read_bytes path = none) :
    read_doc sha epochOf parser here path written = (none, here) := by
  unfold read_doc
  rw [hnone]

variable (written) in
theorem read_doc_direct (hsha : Function.Injective sha) (h : Good sha parser V pid source here)
    (hready : ∀ data ∈ here.files.read_bytes path, Ready sha epochOf V pid here path data) :
    (read_doc sha epochOf parser here path written).1.map (·.doc) = (here.files.read_bytes path).bind parser.split ∧
      ∃ source, Good sha parser V pid source (read_doc sha epochOf parser here path written).2 := by
  cases hread : here.files.read_bytes path with
  | none =>
    rw [read_doc_missing hread]
    exact ⟨rfl, source, h⟩
  | some data =>
    have hspec := read_doc_spec written hsha h hread (hready data hread)
    exact ⟨hspec.answer, hspec.good.imp fun _ hnew => hnew.1⟩

variable (written) in
theorem read_links_direct (written' : Bool) (hsha : Function.Injective sha) (h : Good sha parser V pid source here)
    (hready : ∀ data ∈ here.files.read_bytes path, Ready sha epochOf V pid here path data) :
    (read_links sha epochOf parser here path written written').1 = ((here.files.read_bytes path).bind fun data =>
        (parser.split data).map fun _ => parser.iter_links data) ∧
      ∃ source, Good sha parser V pid source (read_links sha epochOf parser here path written written').2 := by
  unfold read_links
  cases hread : here.files.read_bytes path with
  | none =>
    rw [read_doc_missing hread]
    exact ⟨rfl, source, h⟩
  | some data =>
  have hready := hready data hread
  obtain ⟨hframe, hanswer, source', hgood, hdoc⟩ := read_doc_spec written hsha h hread hready
  rw [Option.bind_some]
  cases hresult : read_doc sha epochOf parser here path written with
  | mk doc? here' =>
    rw [hresult] at hframe hanswer hgood hdoc
    dsimp only at hframe hanswer hgood hdoc ⊢
    cases doc? with
    | none => exact ⟨by rw [← hanswer]; rfl, source', hgood⟩
    | some doc =>
      dsimp only
      obtain ⟨hsource, cached, hcached, hsame⟩ := hdoc doc rfl
      obtain ⟨hlt, hdigest, hof⟩ := hgood.process.docs path cached hcached
      have hsplit : parser.split data = some doc.doc := hanswer.symm
      have hdata : source' cached.doc.number = data := by rw [hsame, hsource]
      rw [hframe.files, hread, hcached, hsplit]
      dsimp only
      cases hlinks : cached.links with
      | some links =>
        refine ⟨?_, source', hgood⟩
        have := hof.links links hlinks
        rw [hdata] at this
        rw [this]
        rfl
      | none =>
        dsimp only
        rw [if_pos ⟨by rw [hsame], by rw [hdigest, hdata]⟩]
        refine ⟨rfl, source', ?_⟩
        refine (hgood.persist { cached with links := some (parser.iter_links data) } _ ?_ hlt hdigest ?_).1
        · rw [hdata]
          exact hready.frame hframe
        · refine ⟨hof.doc, fun links hsome => ?_, hof.nodes⟩
          rw [← Option.some.inj hsome, hdata]

variable (written) in
/-- The nodes that the slot of the page in the process means are those of the parse. -/
theorem ui_nodes_spec {root : Text} {doc : Object κ σ} (h : Good sha parser V pid source here)
    (hready : Ready sha epochOf V pid here path data) (hsource : source doc.number = data)
    (hcached : ∃ cached, here.process.docCache path = some cached ∧ cached.doc = doc)
    (hmeant : V (.process pid path) data = parser.parse_ui_nodes doc.doc path root) :
    (ui_nodes sha epochOf parser here doc path root written).1 = parse_ui_nodes parser doc.doc path root ∧
      Good sha parser V pid source (ui_nodes sha epochOf parser here doc path root written).2 ∧
      (ui_nodes sha epochOf parser here doc path root written).2.process.made = here.process.made := by
  obtain ⟨cached, hget, rfl⟩ := hcached
  obtain ⟨hlt, hdigest, hof⟩ := h.process.docs path cached hget
  rw [hsource] at hof hdigest
  unfold ui_nodes
  rw [hget]
  dsimp only
  cases hnodes : cached.ui_nodes with
  | some nodes =>
    obtain ⟨rest, hrest, rfl⟩ := hof.nodes nodes hnodes
    refine ⟨?_, h, rfl⟩
    dsimp only
    unfold parse_ui_nodes placed
    rw [← hmeant, hrest, Option.map_some, List.map_map]
    rfl
  | none =>
    dsimp only
    cases hparse : parse_ui_nodes parser cached.doc.doc path root with
    | none => exact ⟨rfl, h, rfl⟩
    | some nodes =>
      dsimp only
      rw [if_pos rfl]
      obtain ⟨rest, hrest, rfl⟩ := Option.map_eq_some_iff.1 hparse
      refine ⟨rfl, (h.persist { cached with ui_nodes := some (placed ".".toList _) } _ ?_ hlt ?_ ?_).1, ?_⟩
      · rw [hsource]
        exact hready
      · rw [hsource]
        exact hdigest
      · rw [hsource]
        refine ⟨hof.doc, hof.links, fun kept hkept => ⟨rest, by rw [hmeant, hrest], ?_⟩⟩
        rw [← Option.some.inj hkept]
        unfold placed
        rw [List.map_map]
        rfl
      · unfold Here.persist
        split
        · rfl
        · exact made_put ..

theorem Good.cacheFeature {doc : Object κ σ} {frontmatter : List κ} {nodes : List (UINode ν)} (h : Good sha parser V pid source here)
    (hlt : doc.number < here.process.made) (hsplit : parser.split (source doc.number) = some doc.doc)
    (hfrontmatter : frontmatter = doc.doc.frontmatter.getD [])
    (hnodes : ∃ rest, V (.process pid path) (source doc.number) = some rest ∧ nodes = rest.map fun node => ⟨path, node⟩) :
    Good sha parser V pid source (here.cacheFeature path (doc, frontmatter, nodes)) := by
  refine ⟨h.index, h.process.docs, fun p d f ns hp => ?_⟩
  unfold Here.cacheFeature at hp
  dsimp only at hp
  by_cases heq : p = path
  · subst heq
    rw [Function.update_self] at hp
    obtain ⟨rfl, rfl, rfl⟩ : doc = d ∧ frontmatter = f ∧ nodes = ns := by
      simpa using hp
    exact ⟨hlt, hsplit, hfrontmatter, hnodes⟩
  · rw [Function.update_of_ne heq] at hp
    exact h.process.features p d f ns hp

variable (written) in
theorem feature_doc_spec {root : Text} {doc : Object κ σ} (h : Good sha parser V pid source here)
    (hready : Ready sha epochOf V pid here path data) (hsource : source doc.number = data)
    (hsplit : parser.split data = some doc.doc)
    (hcached : ∃ cached, here.process.docCache path = some cached ∧ cached.doc = doc)
    (hmeant : V (.process pid path) data = parser.parse_ui_nodes doc.doc path root) :
    (feature_doc sha epochOf parser here doc path root written).1 =
        (parse_ui_nodes parser doc.doc path root).map (fun nodes => (doc.doc.frontmatter.getD [], nodes)) ∧
      Good sha parser V pid source (feature_doc sha epochOf parser here doc path root written).2 := by
  have hderive : (derive_feature_doc sha epochOf parser here doc path root written).1 =
        (parse_ui_nodes parser doc.doc path root).map (fun nodes => (doc.doc.frontmatter.getD [], nodes)) ∧
      Good sha parser V pid source (derive_feature_doc sha epochOf parser here doc path root written).2 := by
    obtain ⟨hanswer, hgood, hmade⟩ := ui_nodes_spec written h hready hsource hcached hmeant
    unfold derive_feature_doc
    cases hresult : ui_nodes sha epochOf parser here doc path root written with
    | mk nodes? here' =>
      rw [hresult] at hanswer hgood hmade
      dsimp only at hanswer hgood hmade ⊢
      rw [← hanswer]
      cases nodes? with
      | none => exact ⟨rfl, hgood⟩
      | some nodes =>
        refine ⟨rfl, hgood.cacheFeature ?_ ?_ rfl ?_⟩
        · obtain ⟨cached, hget, rfl⟩ := hcached
          rw [hmade]
          exact (h.process.docs path cached hget).1
        · rw [hsource, hsplit]
        · obtain ⟨rest, hrest, hnodes⟩ := Option.map_eq_some_iff.1 hanswer.symm
          exact ⟨rest, by rw [hsource, hmeant, hrest], hnodes.symm⟩
  unfold feature_doc
  cases hfeature : here.process.featureDocCache path with
  | none => exact hderive
  | some entry =>
    obtain ⟨known, frontmatter, nodes⟩ := entry
    dsimp only
    split
    · rename_i hnumber
      obtain ⟨-, hknown, hfront, rest, hrest, hnodes⟩ := h.process.features path known frontmatter nodes hfeature
      rw [hnumber, hsource] at hknown hrest
      refine ⟨?_, h⟩
      have hdoc : known.doc = doc.doc := Option.some.inj (hknown.symm.trans hsplit)
      unfold parse_ui_nodes
      rw [← hmeant, hrest, hfront, hdoc, hnodes]
      rfl
    · exact hderive

variable (written) in
theorem feature_doc_direct {root : Text} (written' : Bool) (hsha : Function.Injective sha) (h : Good sha parser V pid source here)
    (hready : ∀ data ∈ here.files.read_bytes path, Ready sha epochOf V pid here path data ∧
      ∀ doc ∈ parser.split data, V (.process pid path) data = parser.parse_ui_nodes doc path root) :
    (read_feature_doc sha epochOf parser here path root written written').1 = ((here.files.read_bytes path).bind fun data =>
        (parser.split data).bind fun doc =>
          (parse_ui_nodes parser doc path root).map fun nodes => (doc.frontmatter.getD [], nodes)) ∧
      ∃ source, Good sha parser V pid source (read_feature_doc sha epochOf parser here path root written written').2 := by
  unfold read_feature_doc
  cases hread : here.files.read_bytes path with
  | none =>
    rw [read_doc_missing hread]
    exact ⟨rfl, source, h⟩
  | some data =>
  obtain ⟨hready, hmeant⟩ := hready data hread
  obtain ⟨hframe, hanswer, source', hgood, hdoc⟩ := read_doc_spec written hsha h hread hready
  rw [Option.bind_some]
  cases hresult : read_doc sha epochOf parser here path written with
  | mk doc? here' =>
    rw [hresult] at hframe hanswer hgood hdoc
    dsimp only at hframe hanswer hgood hdoc ⊢
    cases doc? with
    | none => exact ⟨by rw [← hanswer]; rfl, source', hgood⟩
    | some doc =>
      have hsplit : parser.split data = some doc.doc := hanswer.symm
      obtain ⟨hsource, hcached⟩ := hdoc doc rfl
      rw [hsplit, Option.bind_some]
      obtain ⟨hfeature, hnew⟩ := feature_doc_spec written' hgood (hready.frame hframe) hsource hsplit hcached
        (hmeant doc.doc hsplit)
      exact ⟨hfeature, source', hnew⟩

/-! ## Runs -/

/-- The index and every process are good. -/
def World.Good (sha : List Bytes → Text) (parser : Parser κ σ ν) (V : Slot → Bytes → Option (List ν)) (w : World κ σ ν) : Prop :=
  ∀ pid, ∃ source, Cache.Good sha parser V pid source (w.here pid)

variable {w : World κ σ ν} {e : Event κ σ ν}

theorem good_init (files : Files) : (init files : World κ σ ν).Good sha parser V := by
  intro pid
  refine ⟨fun _ => [], fun place payload hread => (nomatch hread), fun path cached hcached => (nomatch hcached), ?_⟩
  exact fun path doc frontmatter nodes hfeature => (nomatch hfeature)

/-- What a process leaves is good if the others were. -/
theorem World.Good.back (h : w.Good sha parser V) (hhere : ∃ source, Cache.Good sha parser V pid source here) :
    (w.back pid here).Good sha parser V := by
  obtain ⟨source, hgood⟩ := hhere
  intro pid'
  by_cases heq : pid' = pid
  · subst heq
    refine ⟨source, hgood.index, ?_⟩
    have hself : (w.back pid' here).process pid' = here.process := Function.update_self ..
    unfold World.here
    rw [hself]
    exact hgood.process
  · obtain ⟨source', hother⟩ := h pid'
    refine ⟨source', hgood.index, ?_⟩
    have hkept : (w.back pid here).process pid' = w.process pid' := Function.update_of_ne heq ..
    unfold World.here
    rw [hkept]
    exact hother.process

/-- A process that has read the same as before, or nothing, is good. -/
theorem World.Good.set (h : w.Good sha parser V) {process : Process κ σ ν}
    (hprocess : ∀ source, GoodProcess sha parser V pid source (w.process pid) → GoodProcess sha parser V pid source process) :
    (w.set pid process).Good sha parser V := by
  obtain ⟨source, hgood⟩ := h pid
  have hhere : ∃ source, Cache.Good sha parser V pid source ⟨w.files, w.index, process⟩ :=
    ⟨source, hgood.index, hprocess source hgood.process⟩
  exact h.back hhere

/-- **One event**: a read gives what parsing gives, and what is held stays good. -/
theorem perform_spec (hsha : Function.Injective sha) (h : w.Good sha parser V) (hmeets : Meets sha epochOf parser V w e) :
    (w.perform sha epochOf parser e).1 = direct parser w.files e ∧ (w.perform sha epochOf parser e).2.Good sha parser V := by
  cases e with
  | edit files => exact ⟨rfl, fun pid => (h pid).imp fun _ hgood => ⟨hgood.index, hgood.process⟩⟩
  | entry place entry =>
    refine ⟨rfl, fun pid => (h pid).imp fun _ hgood => ⟨fun place' payload hread => ?_, hgood.process⟩⟩
    change (Function.update w.index place entry place').bind Entry.read = some payload at hread
    by_cases heq : place' = place
    · subst heq
      rw [Function.update_self] at hread
      obtain ⟨e, he, hsome⟩ := Option.bind_eq_some_iff.1 hread
      rw [hmeets e he] at hsome
      cases hsome
    · rw [Function.update_of_ne heq] at hread
      exact hgood.index place' payload hread
  | start pid =>
    refine ⟨rfl, h.set fun source hgood => ⟨fun path cached hcached => (nomatch hcached), ?_⟩⟩
    exact fun path doc frontmatter nodes hfeature => (nomatch hfeature)
  | session pid root directory enabled => exact ⟨rfl, h.set fun source hgood => ⟨hgood.docs, hgood.features⟩⟩
  | use pid store => exact ⟨rfl, h.set fun source hgood => ⟨hgood.docs, hgood.features⟩⟩
  | read_doc pid path written =>
    obtain ⟨source, hgood⟩ := h pid
    obtain ⟨hanswer, hnew⟩ := read_doc_direct written hsha hgood hmeets
    exact ⟨congrArg Answer.doc hanswer, h.back hnew⟩
  | read_links pid path written written' =>
    obtain ⟨source, hgood⟩ := h pid
    obtain ⟨hanswer, hnew⟩ := read_links_direct written written' hsha hgood hmeets
    exact ⟨congrArg Answer.links hanswer, h.back hnew⟩
  | feature_doc pid path root written written' =>
    obtain ⟨source, hgood⟩ := h pid
    obtain ⟨hanswer, hnew⟩ := feature_doc_direct written written' hsha hgood hmeets
    exact ⟨congrArg Answer.feature hanswer, h.back hnew⟩

/-- **Every read of a run gives what parsing the present bytes under the root gives**, if to each slot
and text one list of nodes is meant, and every event meets that. -/
theorem reads_are_direct {files : Files} {es : List (Event κ σ ν)} (hsha : Function.Injective sha)
    (hmeets : Run.Along (step sha epochOf parser) (Meets sha epochOf parser V) (init files) es) :
    Transparent sha epochOf parser files es := by
  have hstep : ∀ w e w', w.Good sha parser V → Meets sha epochOf parser V w e → step sha epochOf parser w e = some w' →
      w'.Good sha parser V := by
    intro w e w' hgood hmeet hstep
    unfold step at hstep
    split at hstep
    · exact Option.some.inj hstep ▸ (perform_spec hsha hgood hmeet).2
    · cases hstep
  intro es' e w hpre hrun
  obtain ⟨rest, rfl⟩ := hpre
  rw [List.append_assoc] at hmeets
  have hgood := Run.inv_run_of hstep (Run.along_left hmeets) (good_init files) hrun
  exact (perform_spec hsha hgood (Run.along_append hmeets hrun).1).1

/-! ## Two runs -/

/-- A number in strokes. -/
def strokes (n : ℕ) : Text := List.replicate n '1' ++ ['0']

/-- A digest that spells its chunks. -/
def spell (chunks : List Bytes) : Text := chunks.flatMap fun chunk => chunk.flatMap strokes ++ ['.']

theorem strokes_cut : ∀ (n m : ℕ) (x y : Text), strokes n ++ x = strokes m ++ y → n = m ∧ x = y
  | 0, 0, x, y, h => ⟨rfl, (List.cons.inj h).2⟩
  | 0, m + 1, x, y, h => absurd (List.cons.inj h).1 (by decide)
  | n + 1, 0, x, y, h => absurd (List.cons.inj h).1 (by decide)
  | n + 1, m + 1, x, y, h =>
    (strokes_cut n m x y (List.cons.inj h).2).imp_left (congrArg (· + 1))

theorem spell_injective : Function.Injective spell := by
  have hcut : ∀ (a b : Bytes) (x y : Text), (a.flatMap strokes ++ ['.']) ++ x = (b.flatMap strokes ++ ['.']) ++ y → a = b ∧ x = y := by
    intro a
    induction a with
    | nil =>
      intro b x y heq
      rcases b with _ | ⟨m, b⟩
      · exact ⟨rfl, (List.cons.inj heq).2⟩
      · cases m <;> exact absurd (List.cons.inj heq).1 (by decide)
    | cons n a ih =>
      intro b x y heq
      rcases b with _ | ⟨m, b⟩
      · cases n <;> exact absurd (List.cons.inj heq).1 (by decide)
      · simp only [List.flatMap_cons, List.append_assoc] at heq
        obtain ⟨rfl, hrest⟩ := strokes_cut n m _ _ heq
        obtain ⟨rfl, hxy⟩ := ih b x y (by simpa using hrest)
        exact ⟨rfl, hxy⟩
  exact flatMap_injective (fun chunk heq => List.cons_ne_nil _ _ (List.append_eq_nil_iff.1 heq).2) hcut

/-- A page with nothing but a frontmatter that makes it a file node, known by its id. -/
def filePages : Parser Unit Unit Text where
  split _ := some ⟨some [()], [], [], ()⟩
  iter_links _ := []
  parse_ui_nodes _ path root :=
    if root ++ ['/'] <+: path then some [path.drop (root.length + 1)] else none

def nodeIds : Answer Unit Unit Text → List Text
  | .feature (some (_, nodes)) => nodes.map (·.rest)
  | _ => []

/-- `/r/d/b` is a symlink to `/r/d/a`. -/
def twoNames : Files where
  read_bytes _ := some []
  realpath path := if path = "/r/d/b".toList then some "/r/d/a".toList else some path

/-- A page is read under one root and then under another one in it. -/
def twoRoots : List (Event Unit Unit Text) :=
  [.feature_doc 0 "/r/d/a".toList "/r".toList true true, .feature_doc 0 "/r/d/a".toList "/r/d".toList true true]

/-- A page is read through a symlink and then by its name, with a store. -/
def twoPaths : List (Event Unit Unit Text) :=
  [.session 0 "/r".toList "/i".toList true, .feature_doc 0 "/r/d/b".toList "/r".toList true true,
    .feature_doc 0 "/r/d/a".toList "/r".toList true true]

/-- A page read twice under its root, with a store. -/
theorem reads_are_direct_twice : Transparent spell (fun _ _ => []) filePages twoNames
    [.session 0 "/r".toList "/i".toList true, .feature_doc 0 "/r/d/a".toList "/r".toList true true,
      .feature_doc 0 "/r/d/a".toList "/r".toList true true] := by
  refine reads_are_direct (V := fun _ _ => some ["d/a".toList]) spell_injective ⟨trivial, fun _ _ => ?_⟩
  have hmeets : ∀ w, Meets spell (fun _ _ => []) filePages (fun _ _ => some ["d/a".toList]) w
      (.feature_doc 0 "/r/d/a".toList "/r".toList true true) :=
    fun w data _ => ⟨fun _ _ => rfl, fun _ _ => rfl⟩
  exact ⟨hmeets _, fun _ _ => ⟨hmeets _, fun _ _ => trivial⟩⟩

/-- **A page read under a second root, or through a symlink first, has nodes of another name.** -/
theorem names_are_mixed : Function.Injective spell ∧ ¬ Transparent spell (fun _ _ => []) filePages twoNames twoRoots ∧
    ¬ Transparent spell (fun _ _ => []) filePages twoNames twoPaths := by
  refine ⟨spell_injective, fun h => ?_, fun h => ?_⟩
  · have hlast := congrArg nodeIds (h (twoRoots.take 1) (.feature_doc 0 "/r/d/a".toList "/r/d".toList true true) _ List.prefix_rfl rfl)
    revert hlast
    decide
  · have hlast := congrArg nodeIds (h (twoPaths.take 2) (.feature_doc 0 "/r/d/a".toList "/r".toList true true) _ List.prefix_rfl rfl)
    revert hlast
    decide +kernel

end Stablemate.Cache
