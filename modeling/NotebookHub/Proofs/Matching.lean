import NotebookHub.Proofs.Agreement

namespace NotebookHub

/-- Whether a list can be indexed does not depend on the index. -/
theorem Store.claim_congr (notebook : Key) (ds : List String) (owners owners' : Table Key Key) :
    (claim notebook ds owners).2 = (claim notebook ds owners').2 := by
  induction ds generalizing owners owners' with
  | nil => rfl
  | cons d ds ih =>
    unfold claim
    cases Uri.key d with
    | error e => rfl
    | ok k => exact ih _ _

theorem Store.reindex_congr {s t : Store} {k : Key} (h : s.get? k = t.get? k) :
    (s.reindex k).2 = (t.reindex k).2 := by
  unfold reindex
  rw [h]
  cases t.get? k with
  | none => rfl
  | some n => exact claim_congr ..

/-- Two registries that have the same under a key, links apart, enter a document alike. -/
theorem Registry.enter_congr {r s : Registry} {o : Opening}
    (hd : (r.get? o.address.key).map Document.unlinked =
    (s.get? o.address.key).map Document.unlinked)
    (hl : r.lives.get? o.address.key = s.lives.get? o.address.key) :
    (r.enter o).2 = (s.enter o).2 ∧
      (r.enter o).1.lives.get? o.address.key = (s.enter o).1.lives.get? o.address.key := by
  unfold enter
  cases hr : r.get? o.address.key with
  | none =>
    cases hs : s.get? o.address.key with
    | none => simp [hl]
    | some d => simp [hr, hs] at hd
  | some d =>
    cases hs : s.get? o.address.key with
    | none => simp [hr, hs] at hd
    | some e =>
      rw [hr, hs, Option.map_some, Option.map_some, Option.some.injEq] at hd
      obtain ⟨address, language, mode, predecessor, text, version, life⟩ := d
      obtain ⟨address', language', mode', predecessor', text', version', life'⟩ := e
      simp only [Document.unlinked, Document.mk.injEq] at hd
      obtain ⟨rfl, rfl, rfl, _, rfl, rfl, rfl⟩ := hd
      exact ⟨rfl, hl⟩

theorem Registry.update_congr {r s : Registry} {k : Key} (edits : List Edit) (version : Int)
    (hd : (r.get? k).map Document.unlinked = (s.get? k).map Document.unlinked) :
    (r.update k edits version).2 = (s.update k edits version).2 := by
  unfold update
  cases hr : r.get? k with
  | none =>
    cases hs : s.get? k with
    | none => rfl
    | some d => simp [hr, hs] at hd
  | some d =>
    cases hs : s.get? k with
    | none => simp [hr, hs] at hd
    | some e =>
      rw [hr, hs, Option.map_some, Option.map_some, Option.some.injEq] at hd
      have htext : d.unlinked.text = e.unlinked.text := by rw [hd]
      have htext : d.text = e.text := htext
      simp [htext]

/-- Edits leave the place in a chain alone. -/
theorem Registry.get?_update_unlinked (r : Registry) (k k' : Key) (edits : List Edit)
    (version : Int) :
    ((r.update k edits version).1.get? k').map Document.unlinked =
      if k = k' then ((r.get? k').map Document.unlinked).map fun d =>
        { d with text := (Edit.applyAll edits d.text).1, version }
      else (r.get? k').map Document.unlinked := by
  rw [get?_update]
  split
  · cases r.get? k' <;> rfl
  · rfl

namespace Hub

structure Settled (N : Key) (T : Key → Prop) (h : Hub) : Prop where
  filed : ∀ n, h.store.get? N = some n → Uri.key n.uri = .ok N
  addressed : ∀ k d, T k → h.documents.get? k = some d → d.address.key = k

def Keyed (N : Key) (h : Hub) : Prop :=
  ∀ n, h.store.get? N = some n → ∀ d ∈ n.documents, ∃ k, Uri.key d = .ok k

/-- Two hubs agree, in the midst of an operation on a notebook. -/
structure Near (N : Key) (T : Key → Prop) (h g : Hub) : Prop extends Agree N T h g, Settled N T h

structure Alike (N : Key) (T : Key → Prop) (h g : Hub) : Prop extends Near N T h g where
  keyed : Keyed N h

/-- Agreement carries over what is in order. -/
theorem Alike.extend {N : Key} {T : Key → Prop} {h g h' g' : Hub} (a : Alike N T h g)
    (ah : Agree N T h h') (ag : Agree N T g g') : Alike N T h' g' where
  toAgree := (ah.symm.trans a.toAgree).trans ag
  filed n hn := a.filed n (ah.notebook ▸ hn)
  addressed k d hk hd := by
    have hsame := ah.documents k hk
    rw [hd, Option.map_some] at hsame
    obtain ⟨d', hd', he⟩ := Option.map_eq_some_iff.mp hsame.symm
    have haddress : d'.unlinked.address = d.unlinked.address := by rw [he]
    have haddress : d'.address = d.address := haddress
    exact haddress ▸ a.addressed k d' hk hd'
  keyed n hn := a.keyed n (ah.notebook ▸ hn)

section Documents

variable {N : Key} {T : Key → Prop}

/-- The registries are changed in the same way. -/
theorem Alike.withDocuments {h g : Hub} (a : Alike N T h g) {r s : Registry}
    (hd : ∀ k, T k → (s.get? k).map Document.unlinked = (r.get? k).map Document.unlinked)
    (hl : ∀ k, T k → s.lives.get? k = r.lives.get? k)
    (ha : ∀ k d, T k → r.get? k = some d → d.address.key = k) :
    Alike N T { h with documents := r } { g with documents := s } where
  toAgree := { a.toAgree with documents := hd, lives := hl }
  filed := a.filed
  addressed := ha
  keyed := a.keyed

theorem Alike.note {h g : Hub} (a : Alike N T h g) (n m : Note) :
    Alike N T (h.note n) (g.note m) where
  toAgree := a.toAgree.note n m
  filed := a.filed
  addressed := a.addressed
  keyed := a.keyed

theorem jot_matches (n m : Note) :
    Act.Matches (Alike N T) (Act.jot n) (Act.jot m) fun _ _ => Alike N T :=
  .modify fun _ _ a => a.note n m

theorem modeFor_matches (uri : String) (mode : Mode) :
    Act.Matches (Alike N T) (modeFor uri mode) (modeFor uri mode) fun m m' h g => m =
      m' ∧ Alike N T h g := by
  cases mode with
  | cell => exact .pure fun _ _ a => ⟨rfl, a⟩
  | file => exact .lift_bind fun _ _ => .pure fun _ _ a => ⟨rfl, a⟩

theorem enterDocument_matches {item : TextItem} (mode : Mode) (predecessor : Option String)
    (hT : ∀ k, Uri.key item.uri = .ok k → T k) :
    Act.Matches (Alike N T) (enterDocument item mode predecessor)
      (enterDocument item mode predecessor)
      fun d e h g => d = e ∧ T d.address.key ∧ Alike N T h g := by
  intro h g h' d a hrun
  cases ha : Address.of item.uri with
  | error e =>
    rw [enterDocument_on_error ha] at hrun
    cases hrun
  | ok b =>
    obtain ⟨js, hh⟩ := enterDocument_on ha mode predecessor h
    obtain ⟨js', hg⟩ := enterDocument_on ha mode predecessor g
    rw [hh] at hrun
    cases hrun
    let o : Registry.Opening := ⟨b, item.language, item.version, item.text, mode, predecessor⟩
    have hkey : T o.address.key := hT _ (Address.of_eq_ok ha).2.1
    obtain ⟨hd, hl⟩ := Registry.enter_congr (o := o) (a.documents _ hkey).symm (a.lives _ hkey).symm
    have haddress : (h.documents.enter o).2.address.key = o.address.key := by
      unfold Registry.enter
      split
      · rename_i e he
        exact a.addressed _ e hkey he
      · rfl
    refine ⟨_, _, hg, hd, haddress ▸ hkey, ?_⟩
    refine Alike.withDocuments (h := { h with journal := js }) (g := { g with journal := js' })
      ⟨⟨{ a.toAgree with }, ⟨a.filed, a.addressed⟩⟩, a.keyed⟩ (fun k hk => ?_) (fun k hk => ?_)
      fun k e hk he => ?_
    · rw [Registry.get?_enter, Registry.get?_enter]
      split
      · exact congrArg (fun d => some (Document.unlinked d)) hd.symm
      · exact a.documents k hk
    · by_cases hke : o.address.key = k
      · exact hke ▸ hl.symm
      · exact (Registry.lives_enter hke).trans
          ((a.lives k hk).trans (Registry.lives_enter hke).symm)
    · rw [Registry.get?_enter] at he
      split at he
      · rename_i hke
        obtain rfl := Option.some.inj he
        exact haddress.trans hke
      · exact a.addressed k e hk he

theorem registerOpen_matches {item : TextItem} (mode : Mode) (predecessor : Option String)
    (hT : ∀ k, Uri.key item.uri = .ok k → T k) :
    Act.Matches (Alike N T) (registerOpen item mode predecessor)
      (registerOpen item mode predecessor)
      fun n m h g => n = m ∧ T n.document.key ∧ Alike N T h g := by
  refine (modeFor_matches _ _).bind fun mode mode' => .of_fact fun hmode => ?_
  subst hmode
  refine .get_bind fun h g a => Act.Matches.between (R := Alike N T) ?_ a
  rw [a.settings]
  refine (jot_matches _ _).bind fun _ _ => ?_
  refine Act.Matches.bind (enterDocument_matches mode predecessor (by exact hT)) fun d e => ?_
  exact .of_fact fun hd => .of_fact fun hk => .pure fun _ _ a => ⟨by rw [hd], hk, a⟩

theorem Alike.update {h g : Hub} (a : Alike N T h g) (key : Key) (edits : List Edit)
    (version : Int) :
    Alike N T { h with documents := (h.documents.update key edits version).1 }
      { g with documents := (g.documents.update key edits version).1 } := by
  refine a.withDocuments (fun k hk => ?_) (fun k hk => ?_) fun k d hk hd => ?_
  · rw [Registry.get?_update_unlinked, Registry.get?_update_unlinked, a.documents k hk]
  · rw [Registry.lives_update, Registry.lives_update, a.lives k hk]
  · rw [Registry.get?_update] at hd
    split at hd
    · obtain ⟨d₀, hd₀, rfl⟩ := Option.map_eq_some_iff.mp hd
      exact a.addressed k d₀ hk hd₀
    · exact a.addressed k d hk hd

theorem updateDocument_matches {change : ContentChange}
    (hT : ∀ k, Uri.key change.uri = .ok k → T k) :
    Act.Matches (Alike N T) (updateDocument change) (updateDocument change)
      fun r s h g => (r.map fun p => (p.1.unlinked, p.2)) = (s.map fun p => (p.1.unlinked, p.2)) ∧
        (∀ p ∈ r, T p.1.address.key) ∧ Alike N T h g := by
  refine .lift_bind fun key hk => .get_bind fun h g a => ?_
  have hkey := hT key hk
  have hsettled := Registry.update_congr change.edits change.version (a.documents key hkey)
  have hboth := a.update key change.edits change.version
  have hfound := hboth.documents key hkey
  dsimp only at hfound ⊢
  cases hh : (h.documents.update key change.edits change.version).1.get? key with
  | none =>
    cases hg : (g.documents.update key change.edits change.version).1.get? key with
    | some e => simp [hh, hg] at hfound
    | none =>
      exact ((jot_matches _ _).between a).bind fun _ _ => .pure fun _ _ a => ⟨rfl, by simp, a⟩
  | some d =>
    cases hg : (g.documents.update key change.edits change.version).1.get? key with
    | none => simp [hh, hg] at hfound
    | some e =>
      rw [hh, hg, Option.map_some, Option.map_some, Option.some.injEq] at hfound
      refine Act.Matches.bind (V := fun _ _ => Alike N T) (.modify ?_) fun _ _ => ?_
      · rintro _ _ ⟨rfl, rfl⟩
        exact hboth
      · refine .pure fun _ _ a => ⟨by simp [hfound, hsettled], fun p hp => ?_, a⟩
        obtain rfl := Option.mem_some.mp hp
        exact (hboth.addressed key d hkey hh).symm ▸ hkey

theorem registerChange_matches {change : ContentChange} (mode : Mode)
    (hT : ∀ k, Uri.key change.uri = .ok k → T k) :
    Act.Matches (Alike N T) (registerChange change mode) (registerChange change mode)
      fun n m h g => n = m ∧ (∀ x ∈ n, T x.document.key) ∧ Alike N T h g := by
  refine (updateDocument_matches hT).bind fun r s => .of_fact fun hr => .of_fact fun hk => ?_
  rcases r with _ | ⟨d, settled⟩ <;> rcases s with _ | ⟨e, settled'⟩
  · exact .pure fun _ _ a => ⟨rfl, by simp, a⟩
  · cases hr
  · cases hr
  · simp only [Option.map_some, Option.some.injEq, Prod.mk.injEq] at hr
    obtain ⟨hd, rfl⟩ := hr
    have haddress : d.unlinked.address = e.unlinked.address := by rw [hd]
    have hlife : d.unlinked.life = e.unlinked.life := by rw [hd]
    have haddress : d.address = e.address := haddress
    have hlife : d.life = e.life := hlife
    refine (jot_matches _ _).bind fun _ _ => .pure fun _ _ a => ⟨by rw [haddress, hlife], ?_, a⟩
    intro x hx
    obtain rfl := Option.mem_some.mp hx
    exact hk _ (Option.mem_some.mpr rfl)

theorem registerClose_matches {uri : String} (hT : ∀ k, Uri.key uri = .ok k → T k) :
    Act.Matches (Alike N T) (registerClose uri) (registerClose uri)
      fun n m h g => n = m ∧ T n.document.key ∧ Alike N T h g := by
  refine (jot_matches _ _).bind fun _ _ => .lift_bind fun a ha => ?_
  refine Act.Matches.bind (V := fun _ _ => Alike N T) (.modify fun h g b => ?_) fun _ _ =>
    .pure fun _ _ b => ⟨rfl, hT _ (Address.of_eq_ok ha).2.1, b⟩
  refine b.withDocuments (fun k hk => ?_) (fun k hk => b.lives k hk) fun k d hk hd => ?_
  · rw [Registry.get?_close, Registry.get?_close]
    split
    · rfl
    · exact b.documents k hk
  · rw [Registry.get?_close] at hd
    split at hd
    · cases hd
    · exact b.addressed k d hk hd

theorem registerOpens_matches {items : List TextItem} (predecessor : TextItem → Option String)
    (hT : ∀ item ∈ items, ∀ k, Uri.key item.uri = .ok k → T k) :
    Act.Matches (Alike N T) (registerOpens items predecessor) (registerOpens items predecessor)
      fun ns ms h g => ns = ms ∧ (∀ n ∈ ns, T n.document.key) ∧ Alike N T h g :=
  .mapM fun item hi => registerOpen_matches .cell (predecessor item) (hT item hi)

theorem registerOpensInOrder_matches {items : List TextItem} (previous : Option String)
    (hT : ∀ item ∈ items, ∀ k, Uri.key item.uri = .ok k → T k) :
    Act.Matches (Alike N T) (registerOpensInOrder previous items)
      (registerOpensInOrder previous items)
      fun ns ms h g => ns = ms ∧ (∀ n ∈ ns, T n.document.key) ∧ Alike N T h g := by
  induction items generalizing previous with
  | nil => exact .pure fun _ _ a => ⟨rfl, by simp, a⟩
  | cons item items ih =>
    refine (registerOpen_matches .cell previous (hT item (by simp))).bind fun n m => ?_
    refine .of_fact fun hn => .of_fact fun hk => ?_
    refine (ih _ fun i hi => hT i (List.mem_cons_of_mem item hi)).bind fun ns ms => ?_
    exact .of_fact fun hns => .of_fact fun hks => .pure fun _ _ a =>
      ⟨by rw [hn, hns], by simpa [hk] using hks, a⟩

theorem registerCloses_matches {uris : List String}
    (hT : ∀ uri ∈ uris, ∀ k, Uri.key uri = .ok k → T k) :
    Act.Matches (Alike N T) (registerCloses uris) (registerCloses uris)
      fun ns ms h g => ns = ms ∧ (∀ n ∈ ns, T n.document.key) ∧ Alike N T h g :=
  .mapM fun uri hu => registerClose_matches (hT uri hu)

theorem registerContent_matches {changes : List ContentChange}
    (hT : ∀ uri ∈ changes.map ContentChange.uri, ∀ k, Uri.key uri = .ok k → T k) :
    Act.Matches (Alike N T) (registerContent changes) (registerContent changes)
      fun ns ms h g => ns = ms ∧ (∀ n ∈ ns, T n.document.key) ∧ Alike N T h g := by
  have hall : Act.Matches (Alike N T) (changes.mapM (registerChange · .cell))
      (changes.mapM (registerChange · .cell)) fun ns ms h g =>
        ns = ms ∧ (∀ n ∈ ns, ∀ x ∈ n, T x.document.key) ∧ Alike N T h g :=
    .mapM fun change hc => registerChange_matches .cell (hT change.uri (List.mem_map_of_mem hc))
  refine hall.bind fun ns ms => .of_fact fun hns => .of_fact fun hk => .pure fun _ _ a => ?_
  refine ⟨by rw [hns], fun x hx => ?_, a⟩
  obtain ⟨n, hn, rfl⟩ := List.mem_filterMap.mp hx
  exact hk _ hn x rfl

/-- Linking succeeds on documents that have keys. -/
theorem linkCells_ok {pairs : List (String × Option String)}
    (hk : ∀ p ∈ pairs, ∃ k, Uri.key p.1 = .ok k) (h : Hub) :
    ∃ g links, (linkCells pairs).on h = (g, .ok links) := by
  induction pairs generalizing h with
  | nil => exact ⟨h, [], rfl⟩
  | cons p pairs ih =>
    obtain ⟨k, hp⟩ := hk p (by simp)
    obtain ⟨a, ha, _⟩ := Address.of_key hp
    obtain ⟨g, links, hrest⟩ := ih (fun q hq => hk q (List.mem_cons_of_mem p hq))
      { h with documents := h.documents.link a.key p.2 }
    refine ⟨g, ⟨a, p.2⟩ :: links, ?_⟩
    simp [linkCells, Act.on_bind, Act.resolve, ha, hrest, Except.map]

theorem stage_ok {uri : String} (token : Token) (hk : Uri.key uri = .ok N) {h : Hub}
    (hh : Keyed N h) :
    ∃ g links, (stage uri token).on h = (g, .ok links) := by
  simp only [stage, Act.on_bind, Act.keyOf, hk, Act.on_lift_ok, Act.on_get]
  split
  · exact ⟨_, _, rfl⟩
  · rename_i notebook hn
    split
    · exact ⟨_, _, rfl⟩
    split
    · exact ⟨_, _, rfl⟩
    · obtain ⟨g, links, hl⟩ := @linkCells_ok (chainLinks notebook.documents)
        (fun p hp => hh notebook hn p.1 (mem_of_mem_linksAfter hp)) h
      exact ⟨g, some links, by simp [hl, Except.map]⟩

/-- A stage succeeds on cells that have keys, and makes no difference to what hubs agree on. -/
theorem stage_matches {uri : String} (token token' : Token) (hk : Uri.key uri = .ok N) :
    Act.Matches (Alike N T) (stage uri token) (stage uri token') fun _ _ => Alike N T := by
  intro h g h' r a hrun
  obtain ⟨g', r', hrun'⟩ := stage_ok token' hk (h := g) fun n hn => a.keyed n (a.notebook ▸ hn)
  exact ⟨g', r', hrun',
    a.extend (.of_stages (stage_spec hk hrun).1) (.of_stages (stage_spec hk hrun').1)⟩

end Documents

section Store

variable {N : Key} {T : Key → Prop}

/-- A notebook is indexed when its cells have keys. -/
theorem reindex_matches : Act.Matches (Near N T) (reindex N) (reindex N) fun _ _ => Alike N T := by
  intro h g h' r a hrun
  rw [reindex_on] at hrun
  have hsame := Store.reindex_congr a.notebook
  have hok : (h.store.reindex N).2 = .ok () := by
    cases hr : (h.store.reindex N).2 with
    | ok _ => rfl
    | error e => simp [hr, Except.mapError] at hrun
  rw [hok] at hrun
  cases hrun
  refine ⟨{ g with store := (g.store.reindex N).1 }, (), ?_, ?_⟩
  · rw [reindex_on, hsame, hok]
    rfl
  · refine ⟨⟨{ a.toAgree with notebook := ?_ }, ⟨fun n hn => ?_, a.addressed⟩⟩, fun n hn => ?_⟩
    · rw [Store.get?_reindex, Store.get?_reindex, a.notebook]
    · rw [Store.get?_reindex] at hn
      exact a.filed n hn
    · rw [Store.get?_reindex] at hn
      exact Store.key_of_reindex hn hok

/-- The notebook is changed in the same way in both stores, and keeps its URI. -/
theorem Agree.modifyStore {h g : Hub} (a : Agree N T h g) (f : Notebook → Notebook) :
    Agree N T { h with store := h.store.modify N f } { g with store := g.store.modify N f } :=
  { a with notebook := by rw [Store.get?_modify, Store.get?_modify, a.notebook] }

theorem Near.modifyStore {h g : Hub} (a : Near N T h g) {f : Notebook → Notebook}
    (hu : ∀ n, (f n).uri = n.uri) :
    Near N T { h with store := h.store.modify N f } { g with store := g.store.modify N f } where
  toAgree := a.toAgree.modifyStore f
  filed n hn := by
    rw [Store.get?_modify, if_pos rfl] at hn
    obtain ⟨m, hm, rfl⟩ := Option.map_eq_some_iff.mp hn
    rw [hu]
    exact a.filed m hm
  addressed := a.addressed

theorem Alike.modifyStore {h g : Hub} (a : Alike N T h g) {f : Notebook → Notebook}
    (hu : ∀ n, (f n).uri = n.uri)
    (hd : ∀ n, h.store.get? N = some n → (f n).documents = n.documents) :
    Alike N T { h with store := h.store.modify N f } { g with store := g.store.modify N f } where
  toNear := a.toNear.modifyStore hu
  keyed n hn d hdoc := by
    rw [Store.get?_modify, if_pos rfl] at hn
    obtain ⟨m, hm, rfl⟩ := Option.map_eq_some_iff.mp hn
    rw [hd m hm] at hdoc
    exact a.keyed m hm d hdoc

theorem metadataOf_matches {R : Hub → Hub → Prop} (v : Json) :
    Act.Matches R (metadataOf v) (metadataOf v) fun m m' h g => m = m' ∧ R h g := by
  unfold metadataOf
  split
  · exact .pure fun _ _ hr => ⟨rfl, hr⟩
  · intro h g h' x _ hx
    cases hx

theorem applyVersion_matches (version : Int) (metadata : Option Json) :
    Act.Matches (Alike N T) (applyVersion N version metadata) (applyVersion N version metadata)
      fun _ _ => Alike N T := by
  refine Act.Matches.bind (V := fun _ _ => Alike N T) (.modify fun h g a => ?_) fun _ _ => ?_
  · exact a.modifyStore (fun _ => rfl) fun _ _ => rfl
  · split
    · exact .pure fun _ _ a => a
    · refine (metadataOf_matches _).bind fun m m' => .of_fact fun hm => ?_
      subst hm
      exact .modify fun h g a => a.modifyStore (fun _ => rfl) fun _ _ => rfl

theorem applyData_matches (updates : List Cell) :
    Act.Matches (Alike N T) (applyData N updates) (applyData N updates) fun _ _ => Alike N T := by
  refine .get_bind fun h g a => ?_
  rw [a.notebook]
  split
  · refine .pure ?_
    rintro _ _ ⟨rfl, rfl⟩
    exact a
  · rename_i notebook hn
    dsimp only
    refine Act.Matches.bind (V := fun _ _ => Alike N T) (.modify ?_) fun _ _ => ?_
    · rintro _ _ ⟨rfl, rfl⟩
      refine a.modifyStore (fun _ => rfl) fun n hn' => ?_
      obtain rfl := Option.some.inj (hn.symm.trans hn')
      simp [Notebook.documents, documents_applyCellData]
    · split
      · exact jot_matches _ _
      · exact .pure fun _ _ a => a

theorem putInStore_matches {item : NotebookItem} (hk : Uri.key item.uri = .ok N) :
    Act.Matches (Alike N T) (putInStore item N) (putInStore item N) fun _ _ => Alike N T := by
  refine Act.Matches.bind (V := fun m m' h g => m = m' ∧ Alike N T h g) ?_ fun m m' => ?_
  · cases item.metadata with
    | none => exact .pure fun _ _ a => ⟨rfl, a⟩
    | some v =>
      refine (metadataOf_matches v).map fun m m' h g hm => ?_
      exact ⟨by rw [hm.1], hm.2⟩
  · refine .of_fact fun hm => ?_
    subst hm
    refine Act.Matches.bind (V := fun _ _ => Near N T) (.modify fun h g a => ?_) fun _ _ =>
      reindex_matches
    refine ⟨{ a.toAgree with notebook := ?_ }, ⟨fun n hn => ?_, a.addressed⟩⟩
    · simp [Store.get?]
    · simp only [Store.get?, Table.get?_insert, if_true, Option.some.injEq] at hn
      subst hn
      exact hk

theorem openInStore_matches {item : NotebookItem} (hk : Uri.key item.uri = .ok N) :
    Act.Matches (Alike N T) (openInStore item) (openInStore item) fun _ _ => Alike N T := by
  rw [openInStore_eq]
  refine .lift_bind fun key hkey => .get_bind fun h g a => ?_
  obtain rfl : N = key := Except.ok.inj (hk.symm.trans hkey)
  dsimp only
  rw [a.notebook]
  split
  · refine ((jot_matches _ _).between a).bind fun _ _ => ?_
    refine Act.Matches.bind (V := fun _ _ => Alike N T) (.modify fun h g a => ?_) fun _ _ =>
      putInStore_matches hk
    exact ⟨⟨{ a.toAgree with notebook := a.notebook }, ⟨a.filed, a.addressed⟩⟩, a.keyed⟩
  · exact (putInStore_matches hk).between a

/-- The errands of two hubs that agree have the same notices, all about documents `T`. -/
def SameNotices (T : Key → Prop) (es fs : List Errand) : Prop :=
  noticesOf es = noticesOf fs ∧ ∀ n ∈ noticesOf es, T n.document.key

theorem applyStructure_matches {notebook : Notebook} {change : StructureChange}
    (token token' : Option Token) (hk : Uri.key notebook.uri = .ok N)
    (hT : ∀ uri ∈ change.opened.map TextItem.uri ++ change.closed, ∀ k, Uri.key uri = .ok k → T k)
    (htokens : token.isSome = token'.isSome) :
    Act.Matches (Alike N T) (applyStructure N notebook change token)
      (applyStructure N notebook change token')
      fun u v h g => SameNotices T u.errands v.errands ∧ Alike N T h g := by
  unfold applyStructure
  dsimp only
  refine Act.Matches.bind (V := fun _ _ => Near N T)
    (.modify fun h g a => a.toNear.modifyStore (by intro _; rfl)) fun _ _ => ?_
  refine reindex_matches.bind fun _ _ => (jot_matches _ _).bind fun _ _ => ?_
  refine (registerOpens_matches _ fun item hi => hT item.uri
    (List.mem_append_left _ (List.mem_map_of_mem hi))).bind fun opened opened' => ?_
  refine .of_fact fun hopened => .of_fact fun hopen => ?_
  refine (registerCloses_matches fun uri hu => hT uri (List.mem_append_right _ hu)).bind
    fun closed closed' => ?_
  refine .of_fact fun hclosed => .of_fact fun hclose => ?_
  have hall : ∀ n ∈ opened ++ closed, T n.document.key := fun n hn =>
    (List.mem_append.mp hn).elim (hopen n) (hclose n)
  have hsame (l l' : Option (List Link)) : SameNotices T
      (StructuralUpdate.errands ⟨notebook.uri, token, opened ++ closed, l⟩)
      (StructuralUpdate.errands ⟨notebook.uri, token', opened' ++ closed', l'⟩) := by
    unfold SameNotices
    rw [noticesOf_errands, noticesOf_errands, hopened, hclosed]
    exact ⟨rfl, hopened ▸ hclosed ▸ hall⟩
  cases token with
  | none =>
    cases token' with
    | none => exact .pure fun _ _ a => ⟨hsame _ _, a⟩
    | some t => cases htokens
  | some t =>
    cases token' with
    | none => cases htokens
    | some t' =>
      exact (stage_matches t t' hk).bind fun l l' => .pure fun _ _ a => ⟨hsame _ _, a⟩

end Store

section Begin

variable {N : Key} {T : Key → Prop}

theorem stageOnOpen_matches {uri : String} {token token' : Option Token} (hk : Uri.key uri = .ok N)
    (htokens : token.isSome = token'.isSome) :
    Act.Matches (Alike N T) (stageOnOpen uri token) (stageOnOpen uri token')
      fun es fs h g => noticesOf es = [] ∧ noticesOf fs = [] ∧ Alike N T h g := by
  cases token with
  | none =>
    cases token' with
    | none => exact .pure fun _ _ a => ⟨rfl, rfl, a⟩
    | some t => cases htokens
  | some t =>
    cases token' with
    | none => cases htokens
    | some t' =>
      refine .get_bind fun h g a => ?_
      rw [a.settings]
      split
      · refine ((stage_matches t t' hk).between a).bind fun l l' => .pure fun _ _ a => ?_
        exact ⟨noticesOf_passErrand .., noticesOf_passErrand .., a⟩
      · exact Act.Matches.between (R := Alike N T) (.pure fun _ _ a => ⟨rfl, rfl, a⟩) a

theorem beginOpen_matches {notebook : NotebookItem} {items : List TextItem}
    {token token' : Option Token}
    (hk : Uri.key notebook.uri = .ok N) (htokens : token.isSome = token'.isSome)
    (hT : ∀ item ∈ items, ∀ k, Uri.key item.uri = .ok k → T k) :
    Act.Matches (Alike N T) (beginOpen notebook items token) (beginOpen notebook items token')
      fun es fs h g => SameNotices T es fs ∧ Alike N T h g := by
  refine (jot_matches _ _).bind fun _ _ => (openInStore_matches hk).bind fun _ _ => ?_
  refine (registerOpensInOrder_matches none hT).bind fun ns ms => ?_
  refine .of_fact fun hns => .of_fact fun hall => ?_
  refine (stageOnOpen_matches hk htokens).bind fun es fs => ?_
  refine .of_fact fun hes => .of_fact fun hfs => .pure fun _ _ a => ⟨⟨?_, ?_⟩, a⟩
  · simp [noticesOf_append, hes, hfs, hns]
  · simpa [noticesOf_append, hes] using hall

theorem changeCells_matches {change : NotebookChange}
    (hT : ∀ uri ∈ (change.content.getD []).map ContentChange.uri, ∀ k, Uri.key uri = .ok k → T k) :
    Act.Matches (Alike N T) (changeCells N change) (changeCells N change)
      fun ns ms h g => ns = ms ∧ (∀ n ∈ ns, T n.document.key) ∧ Alike N T h g := by
  unfold changeCells
  split
  · exact registerContent_matches hT
  · exact (applyData_matches _).bind fun _ _ => registerContent_matches hT

theorem beginChange_matches {uri : String} {version : Int} {change : NotebookChange}
    {token token' : Option Token} (hk : Uri.key uri = .ok N)
    (htokens : token.isSome = token'.isSome)
    (hT : ∀ k, (Notification.changeNotebook uri version change).Touches k → T k) :
    Act.Matches (Alike N T) (beginChange uri version change token)
      (beginChange uri version change token')
      fun es fs h g => SameNotices T es fs ∧ Alike N T h g := by
  have htouched : ∀ u ∈ (Notification.changeNotebook uri version change).touched,
      ∀ k, Uri.key u = .ok k → T k := fun u hu k hk => hT k ⟨u, hu, hk⟩
  refine (jot_matches _ _).bind fun _ _ => .lift_bind fun key hkey => .get_bind fun h g a => ?_
  obtain rfl : N = key := Except.ok.inj (hk.symm.trans hkey)
  rw [a.notebook]
  split
  · refine ((jot_matches _ _).between a).bind fun _ _ => .pure fun _ _ a => ?_
    exact ⟨⟨rfl, by simp [noticesOf]⟩, a⟩
  · rename_i notebook hn
    refine ((applyVersion_matches version _).between a).bind fun _ _ => ?_
    refine Act.Matches.bind (V := fun es fs h g => SameNotices T es fs ∧ Alike N T h g) ?_
      fun es fs => ?_
    · unfold changeStructure
      cases hs : change.structural with
      | none => exact .pure fun _ _ a => ⟨⟨rfl, by simp [noticesOf]⟩, a⟩
      | some s =>
        refine (applyStructure_matches token token' (a.filed notebook hn)
          (fun u hu => ?_) htokens).bind
          fun u v => .pure fun _ _ a => a
        apply htouched u
        simp only [Notification.touched, hs]
        exact List.mem_append_left _ hu
    · refine .of_fact fun hsame => ?_
      refine (changeCells_matches fun u hu => htouched u (List.mem_append_right _ hu)).bind
        fun ns ms => ?_
      refine .of_fact fun hns => .of_fact fun hall => .pure fun _ _ a => ⟨⟨?_, fun n hn => ?_⟩, a⟩
      · rw [noticesOf_append, noticesOf_append, hsame.1, hns]
      · rw [noticesOf_append, noticesOf_notices] at hn
        exact (List.mem_append.mp hn).elim (hsame.2 n) (hall n)

theorem beginClose_matches {uri : String} {cells : List String} (hk : Uri.key uri = .ok N)
    (hT : ∀ u ∈ cells, ∀ k, Uri.key u = .ok k → T k) :
    Act.Matches (Alike N T) (beginClose uri cells) (beginClose uri cells)
      fun es fs h g => SameNotices T es fs ∧ Alike N T h g := by
  refine .lift_bind fun key hkey => .get_bind fun h g a => ?_
  obtain rfl : N = key := Except.ok.inj (hk.symm.trans hkey)
  rw [a.notebook]
  split
  · refine ((jot_matches _ _).between a).bind fun _ _ => .pure fun _ _ a => ?_
    exact ⟨⟨rfl, by simp [noticesOf]⟩, a⟩
  · refine Act.Matches.bind (V := fun _ _ => Alike N T) (.modify ?_) fun _ _ => ?_
    · rintro _ _ ⟨rfl, rfl⟩
      have hclosed (h : Hub) : (h.store.close N).get? N = none := by simp [Store.get?_close]
      refine ⟨⟨{ a.toAgree with notebook := ?_ }, ⟨fun n hn => ?_, a.addressed⟩⟩, fun n hn => ?_⟩
      · rw [hclosed, hclosed]
      · rw [hclosed] at hn
        cases hn
      · rw [hclosed] at hn
        cases hn
    · refine (jot_matches _ _).bind fun _ _ => (registerCloses_matches hT).bind fun ns ms => ?_
      refine .of_fact fun hns => .of_fact fun hall => .pure fun _ _ a => ⟨⟨?_, ?_⟩, a⟩
      · rw [hns]
      · simpa using hall

/-- A notification about a notebook registers the same on hubs that agree on the notebook and on all
documents that it touches. -/
theorem begin_matches {n : Notification} {token token' : Option Token} (hn : n.About N)
    (hT : ∀ k, n.Touches k → T k) (htokens : token.isSome = token'.isSome) :
    Act.Matches (Alike N T) (begin n token) (begin n token')
      fun es fs h g => SameNotices T es fs ∧ Alike N T h g := by
  obtain ⟨hnotebook, hk⟩ := hn
  cases n with
  | openNotebook notebook items =>
    exact beginOpen_matches hk htokens
      fun item hi k hk => hT k ⟨item.uri, List.mem_map_of_mem hi, hk⟩
  | changeNotebook uri version change => exact beginChange_matches hk htokens hT
  | saveNotebook uri =>
    refine (jot_matches _ _).bind fun _ _ => .pure fun _ _ a => ?_
    exact ⟨⟨rfl, by simp [noticesOf]⟩, a⟩
  | closeNotebook uri cells => exact beginClose_matches hk fun u hu k hk => hT k ⟨u, hu, hk⟩
  | openDocument item => cases hnotebook
  | changeDocument change => cases hnotebook
  | closeDocument uri => cases hnotebook

end Begin
end Hub
end NotebookHub
