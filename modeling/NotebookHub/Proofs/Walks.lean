import Mathlib.Data.List.Chain
import Mathlib.Data.List.Nodup
import Mathlib.Data.List.Perm.Subperm
import Mathlib.Logic.Relation
import NotebookHub.Proofs.Addresses
import NotebookHub.Proofs.Tables
import NotebookHub.Workspace.File

namespace NotebookHub

namespace Workspace

variable {w : Workspace}

def Filed (w : Workspace) : Prop := ∀ k f, w.get? k = some f → Uri.key f.uri = .ok k

theorem Filed.receive (hw : w.Filed) {m : Message} (hm : m.document.Sound) :
    (w.receive m).1.Filed := by
  intro k f hf
  unfold Workspace.receive at hf
  have hkeep (a : Address) (g g' : File) (hg : w.get? a.key = some g) (huri : g'.uri = g.uri)
      (hf : ({ w with files := w.files.insert a.key g' } : Workspace).get? k = some f) :
      Uri.key f.uri = .ok k := by
    simp only [Workspace.get?, Table.get?_insert] at hf
    split at hf
    · rename_i hk
      obtain rfl := Option.some.inj hf
      rw [huri, ← hk]
      exact hw _ g hg
    · exact hw k f hf
  cases m with
  | opened a version text mode predecessor =>
    simp only [Workspace.get?, Table.get?_insert] at hf
    split at hf
    · rename_i hk
      obtain rfl := Option.some.inj hf
      rw [← hk]
      exact hm.key
    · exact hw k f hf
  | closed a =>
    simp only [Workspace.get?, Table.get?_erase] at hf
    split at hf
    · cases hf
    · exact hw k f hf
  | changed a edits version =>
    dsimp only at hf
    split at hf
    · exact hw k f hf
    · rename_i g hg
      exact hkeep a g
        { g with text := (Edit.applyAll edits g.text).1, version := version.getD 0 } hg rfl hf
  | linked a predecessor =>
    dsimp only at hf
    split at hf
    · exact hw k f hf
    · rename_i g hg
      exact hkeep a g { g with predecessor } hg rfl hf

def fileAt (w : Workspace) (uri : String) : Option File := (Uri.key uri).toOption.bind w.get?

theorem fileAt_of_key {uri : String} {k : Key} (hk : Uri.key uri = .ok k) :
    w.fileAt uri = w.get? k := by
  simp [fileAt, hk, Except.toOption]

/-- From a document that is held the walk goes on to its predecessor. -/
def Follows (w : Workspace) (uri predecessor : String) : Prop :=
  ∃ f, w.fileAt uri = some f ∧ f.predecessor = some predecessor

/-- The files that a walk still passes when it has passed `seen`, each with its key. It ends at the
head of a chain, at a document that is not held, and where it would pass a file again. -/
inductive Walk (w : Workspace) : List Key → Option String → List (Key × File) → Prop
  | done {seen : List Key} : Walk w seen none []
  | unheld {seen : List Key} {uri : String} {k : Key} (hk : Uri.key uri = .ok k)
    (hf : w.get? k = none) :
    Walk w seen (some uri) []
  | again {seen : List Key} {uri : String} {k : Key} (hk : Uri.key uri = .ok k) (hs : k ∈ seen) :
    Walk w seen (some uri) []
  | pass {seen : List Key} {uri : String} {k : Key} {f : File} {es : List (Key × File)}
    (hk : Uri.key uri = .ok k) (hf : w.get? k = some f) (hs : k ∉ seen)
    (rest : Walk w (k :: seen) f.predecessor es) : Walk w seen (some uri) ((k, f) :: es)

/-- Every step takes another file, so that a walk comes to an end as long as what it follows has
keys. -/
theorem exists_walk {uri : String}
    (hkeys : ∀ p, Relation.ReflTransGen w.Follows uri p → ∃ k, Uri.key p = .ok k) {seen : List Key}
    (hnodup : seen.Nodup) (hheld : seen ⊆ w.files.keys) : ∃ es, w.Walk seen (some uri) es := by
  obtain ⟨n, hn⟩ : ∃ n, w.files.size < seen.length + n := ⟨w.files.size + 1, by omega⟩
  induction n generalizing uri seen with
  | zero =>
    have hle := (List.subperm_of_subset hnodup hheld).length_le
    simp only [Table.keys, List.length_map] at hle
    simp only [Table.size] at hn
    omega
  | succ n ih =>
    obtain ⟨k, hk⟩ := hkeys uri .refl
    cases hf : w.get? k with
    | none => exact ⟨[], .unheld hk hf⟩
    | some f =>
      by_cases hs : k ∈ seen
      · exact ⟨[], .again hk hs⟩
      · cases hp : f.predecessor with
        | none => exact ⟨[(k, f)], .pass hk hf hs (hp ▸ .done)⟩
        | some p =>
          have hstep : w.Follows uri p := ⟨f, (fileAt_of_key hk).trans hf, hp⟩
          have hmem : k ∈ w.files.keys := List.mem_map_of_mem (Table.get?_eq_some_iff.mp hf)
          obtain ⟨es, hes⟩ := ih (fun q hq => hkeys q (.head hstep hq))
            (List.nodup_cons.mpr ⟨hs, hnodup⟩)
            (List.cons_subset.mpr ⟨hmem, hheld⟩) (by simp only [List.length_cons]; omega)
          exact ⟨(k, f) :: es, .pass hk hf hs (hp ▸ hes)⟩

namespace Walk

variable {seen : List Key} {from? : Option String} {uri : String} {es : List (Key × File)}

theorem get?_of_mem (hw : w.Walk seen from? es) {e : Key × File} (he : e ∈ es) :
    w.get? e.1 = some e.2 := by
  induction hw with
  | done | unheld | again => cases he
  | pass hk hf hs rest ih =>
    rcases List.mem_cons.mp he with rfl | he
    · exact hf
    · exact ih he

theorem not_mem_seen (hw : w.Walk seen from? es) {e : Key × File} (he : e ∈ es) : e.1 ∉ seen := by
  induction hw with
  | done | unheld | again => cases he
  | pass hk hf hs rest ih =>
    rcases List.mem_cons.mp he with rfl | he
    · exact hs
    · exact fun hm => ih he (List.mem_cons_of_mem _ hm)

/-- No file is passed twice. -/
theorem nodup (hw : w.Walk seen from? es) : (es.map Prod.fst).Nodup := by
  induction hw with
  | done | unheld | again => exact .nil
  | @pass seen uri k f es hk hf hs rest ih =>
    refine List.nodup_cons.mpr ⟨fun hm => ?_, ih⟩
    obtain ⟨e, he, rfl⟩ := List.mem_map.mp hm
    exact rest.not_mem_seen he (by simp)

theorem length_le (hw : w.Walk seen from? es) : es.length ≤ w.files.size := by
  have hsub : es ⊆ w.files.entries := fun e he => Table.get?_eq_some_iff.mp (hw.get?_of_mem he)
  exact (List.subperm_of_subset hw.nodup.of_map hsub).length_le

/-- With fuel for every file and the step that finds no other, the walk comes to its end. -/
theorem walkBack (hw : w.Walk seen (some uri) es) {fuel : Nat} (hfuel : es.length < fuel)
    (chain : List File) :
    w.walkBack fuel seen chain uri = .ok ((es.map Prod.snd).reverse ++ chain) := by
  induction fuel generalizing seen uri es chain with
  | zero => cases hfuel
  | succ fuel ih =>
    cases hw with
    | unheld hk hf => simp [Workspace.walkBack, hk, hf, bind, Except.bind, pure, Except.pure]
    | again hk hs =>
      rename_i k
      cases hf : w.get? k
        <;> simp [Workspace.walkBack, hk, hf, hs, bind, Except.bind, pure, Except.pure]
    | @pass _ _ k f es hk hf hs rest =>
      simp only [Workspace.walkBack, hk, bind, Except.bind, hf, if_neg hs]
      generalize f.predecessor = predecessor at rest
      cases predecessor with
      | none =>
        cases rest
        rfl
      | some p => simpa using ih rest (by simpa using hfuel) (f :: chain)

theorem chainOf (hw : w.Walk [] (some uri) es) : w.chainOf uri = .ok (es.map Prod.snd).reverse := by
  simpa [Workspace.chainOf] using hw.walkBack (Nat.lt_succ_of_le hw.length_le) []

theorem chainedSource (hw : w.Walk [] (some uri) es) (hfiled : w.Filed) :
    w.chainedSource uri = .ok ("\n".intercalate ((es.map Prod.snd).reverse.map File.text)) := by
  have htext : ∀ f ∈ (es.map Prod.snd).reverse, w.textOf f.uri = .ok f.text := by
    intro f hf
    obtain ⟨e, he, rfl⟩ := List.mem_map.mp (List.mem_reverse.mp hf)
    have hget := hw.get?_of_mem he
    simp [textOf, hfiled _ _ hget, hget]
  have hall (files : List File) (hfiles : ∀ f ∈ files, w.textOf f.uri = .ok f.text) :
      files.mapM (fun f => w.textOf f.uri) = .ok (files.map File.text) := by
    induction files with
    | nil => rfl
    | cons f files ih =>
      rw [List.mapM_cons, hfiles f (by simp), ih fun g hg => hfiles g (List.mem_cons_of_mem f hg)]
      rfl
  simp only [Workspace.chainedSource, hw.chainOf, hall _ htext]
  rfl

/-- Each file is passed because the one passed before it names it. -/
theorem linked (hw : w.Walk seen from? es) : es.IsChain fun e e' =>
    ∃ p, e.2.predecessor = some p ∧ Uri.key p = .ok e'.1 ∧ w.get? e'.1 = some e'.2 := by
  induction hw with
  | done | unheld | again => exact .nil
  | @pass seen uri k f es hk hf hs rest ih =>
    generalize hp : f.predecessor = predecessor at rest
    cases rest with
    | done | unheld | again => exact .singleton _
    | pass hk' hf' hs' rest => exact .cons_cons ⟨_, hp, hk', hf'⟩ ih

/-- There is nowhere to go on to from the last file. -/
theorem ends (hw : w.Walk seen from? es) {e : Key × File} (he : es.getLast? = some e) {p : String}
    (hp : e.2.predecessor = some p) :
    ∃ k, Uri.key p = .ok k ∧ (w.get? k = none ∨ k ∈ seen ∨ k ∈ es.map Prod.fst) := by
  induction hw with
  | done | unheld | again => cases he
  | @pass seen uri k f es hk hf hs rest ih =>
    cases es with
    | nil =>
      obtain rfl := Option.some.inj he
      have hp : f.predecessor = some p := hp
      rw [hp] at rest
      cases rest with
      | unheld hk' hf' => exact ⟨_, hk', .inl hf'⟩
      | again hk' hs' =>
        refine ⟨_, hk', .inr ?_⟩
        rcases List.mem_cons.mp hs' with rfl | hs'
        · exact .inr (by simp)
        · exact .inl hs'
    | cons e' es =>
      rw [List.getLast?_cons_cons] at he
      obtain ⟨k', hk', hend⟩ := ih he
      refine ⟨k', hk', ?_⟩
      rcases hend with hnone | hseen | hpassed
      · exact .inl hnone
      · rcases List.mem_cons.mp hseen with rfl | hseen
        · exact .inr (.inr (by simp))
        · exact .inr (.inl hseen)
      · exact .inr (.inr (List.mem_cons_of_mem _ hpassed))

theorem head (hw : w.Walk [] (some uri) es) : es.head?.map Prod.snd = w.fileAt uri := by
  cases hw with
  | unheld hk hf => rw [fileAt_of_key hk, hf]; rfl
  | again hk hs => cases hs
  | pass hk hf => rw [fileAt_of_key hk, hf]; rfl

end Walk

/-- What a chain is: it leads up to the file at `uri`, each file of it is held and is there once,
each but the first follows the one before it, and from the first there is nowhere to go on to. -/
structure ReadsBack (w : Workspace) (uri : String) (chain : List File) : Prop where
  last : chain.getLast? = w.fileAt uri
  held : ∀ f ∈ chain, w.fileAt f.uri = some f
  distinct : (chain.map fun f => Uri.key f.uri).Nodup
  linked : chain.IsChain fun f g => ∃ p, g.predecessor = some p ∧ Uri.key p = Uri.key f.uri
  first : ∀ f p, chain.head? = some f → f.predecessor = some p →
    w.fileAt p = none ∨ ∃ g ∈ chain, Uri.key p = Uri.key g.uri

theorem Walk.readsBack {uri : String} {es : List (Key × File)} (hw : w.Walk [] (some uri) es)
    (hfiled : w.Filed) :
    w.ReadsBack uri (es.map Prod.snd).reverse := by
  have hkey {e : Key × File} (he : e ∈ es) : Uri.key e.2.uri = .ok e.1 :=
    hfiled _ _ (hw.get?_of_mem he)
  refine ⟨?_, ?_, ?_, ?_, ?_⟩
  · rw [List.getLast?_reverse, List.head?_map, hw.head]
  · intro f hf
    obtain ⟨e, he, rfl⟩ := List.mem_map.mp (List.mem_reverse.mp hf)
    rw [fileAt_of_key (hkey he), hw.get?_of_mem he]
  · have hkeys : es.map (fun e => Uri.key e.2.uri) = (es.map Prod.fst).map .ok := by
      rw [List.map_map]
      exact List.map_congr_left fun e he => hkey he
    rw [List.map_reverse, List.nodup_reverse, List.map_map]
    exact hkeys ▸ hw.nodup.map fun _ _ => Except.ok.inj
  · rw [List.isChain_reverse, List.isChain_map]
    refine hw.linked.imp fun e e' => ?_
    rintro ⟨p, hp, hk, hf⟩
    exact ⟨p, hp, hk.trans (hfiled _ _ hf).symm⟩
  · intro f p hf hp
    rw [List.head?_reverse, List.getLast?_map] at hf
    obtain ⟨e, he, rfl⟩ := Option.map_eq_some_iff.mp hf
    obtain ⟨k, hk, hnone | hseen | hpassed⟩ := hw.ends he hp
    · exact .inl ((fileAt_of_key hk).trans hnone)
    · cases hseen
    · obtain ⟨e', he', rfl⟩ := List.mem_map.mp hpassed
      exact .inr ⟨e'.2, List.mem_reverse.mpr (List.mem_map_of_mem he'), hk.trans (hkey he').symm⟩

end Workspace

inductive WorkspaceCall
  | opened (uri : String) (version : Option Int) (text : String) (mode : Mode)
    (predecessor : Option String)
  | closed (uri : String)
  | changed (uri : String) (edits : List Edit) (version : Option Int)
  | linked (uri : String) (predecessor : Option String)
  | clear

namespace Workspace

/-- Tells of the document that a URI names. It fails at a URI without a key, and nothing changes. -/
def tell (w : Workspace) (uri : String) (message : Address → Message) : Workspace :=
  match Address.of uri with
  | .ok a => (w.receive (message a)).1
  | .error _ => w

def call (w : Workspace) : WorkspaceCall → Workspace
  | .opened uri version text mode predecessor =>
    w.tell uri (.opened · version text mode predecessor)
  | .closed uri => w.tell uri .closed
  | .changed uri edits version => w.tell uri (.changed · edits version)
  | .linked uri predecessor => w.tell uri (.linked · predecessor)
  | .clear => w.clear

theorem Filed.tell {w : Workspace} (hw : w.Filed) (uri : String) {message : Address → Message}
    (hm : ∀ a, (message a).document = a) : (w.tell uri message).Filed := by
  unfold Workspace.tell
  cases ha : Address.of uri with
  | error e => exact hw
  | ok a => exact hw.receive ((hm a).symm ▸ Address.sound_of ha)

theorem Filed.call {w : Workspace} (hw : w.Filed) (c : WorkspaceCall) : (w.call c).Filed := by
  cases c with
  | opened uri | closed uri | changed uri | linked uri => exact hw.tell uri fun _ => rfl
  | clear =>
    intro k f hf
    cases hf

theorem Filed.calls {w : Workspace} (hw : w.Filed) (calls : List WorkspaceCall) :
    (calls.foldl Workspace.call w).Filed := by
  induction calls generalizing w with
  | nil => exact hw
  | cons c cs ih => exact ih (hw.call c)

def Reached (w : Workspace) : Prop :=
  ∃ name root calls, w = List.foldl call ⟨name, root, .empty⟩ calls

theorem Reached.filed {w : Workspace} (hw : w.Reached) : w.Filed := by
  obtain ⟨name, root, calls, rfl⟩ := hw
  refine Filed.calls (fun k f hf => ?_) calls
  cases hf

/-- Whatever a workspace was told, take a document such that it and the predecessors followed from
it have keys. The walk back from it comes to an end, with the fuel that is given to it as with any
more, at a chain that leads up to the document and is empty just when the document is not held; and
the program that the chain amounts to is the texts of its files in order. -/
theorem walk_reads_back {w : Workspace} (hw : w.Reached) {uri : String}
    (hkeys : ∀ p, Relation.ReflTransGen w.Follows uri p → ∃ k, Uri.key p = .ok k) :
    ∃ chain, w.chainOf uri = .ok chain ∧
      (∀ fuel, w.files.size < fuel → w.walkBack fuel [] [] uri = .ok chain) ∧
      (chain = [] ↔ w.fileAt uri = none) ∧ w.ReadsBack uri chain ∧
      w.chainedSource uri = .ok ("\n".intercalate (chain.map File.text)) := by
  have hfiled := hw.filed
  obtain ⟨es, hes⟩ := exists_walk hkeys .nil (List.nil_subset _)
  refine ⟨_, hes.chainOf, fun fuel hfuel => ?_, ?_, hes.readsBack hfiled, hes.chainedSource hfiled⟩
  · simpa using hes.walkBack (Nat.lt_of_le_of_lt hes.length_le hfuel) []
  · rw [← hes.head]
    simp

/-- Three documents, the first two of which follow each other, and a call that fails. -/
def circling : List WorkspaceCall :=
  [.opened "c:a" (some 1) "a" .cell none, .opened "c:b" (some 1) "b" .cell (some "c:a"),
    .opened "c:c" (some 1) "c" .cell (some "c:x"), .linked "c:c" (some "c:b"),
      .linked "c:a" (some "c:b"),
    .closed "file:x", .changed "c:b" [.whole "B"] (some 2)]

/-- The walk goes round the circle once. -/
theorem walk_reads_back_circle :
    let w := circling.foldl call ⟨"w", none, .empty⟩
    ∃ chain, w.chainOf "c:c" = .ok chain ∧ chain.map File.uri = ["c:a", "c:b", "c:c"] ∧
      w.ReadsBack "c:c" chain ∧
      w.chainedSource "c:c" = .ok "a\nB\nc" := by
  intro w
  have hnext : (w.fileAt "c:c").bind File.predecessor = some "c:b" ∧
      (w.fileAt "c:b").bind File.predecessor = some "c:a" ∧
      (w.fileAt "c:a").bind File.predecessor = some "c:b" := by decide +kernel
  have hround : ∀ p, Relation.ReflTransGen w.Follows "c:c" p → p = "c:c" ∨
      p = "c:b" ∨ p = "c:a" := by
    intro p hp
    induction hp with
    | refl => exact .inl rfl
    | tail _ hstep ih =>
      obtain ⟨f, hf, hpred⟩ := hstep
      rcases ih with rfl | rfl | rfl
        <;> simp only [hf, Option.bind_some, hpred, Option.some.injEq] at hnext
      · exact .inr (.inl hnext.1)
      · exact .inr (.inr hnext.2.1)
      · exact .inr (.inl hnext.2.2)
  have hkeys : ∀ p, Relation.ReflTransGen w.Follows "c:c" p → ∃ k, Uri.key p = .ok k := by
    intro p hp
    rcases hround p hp with rfl | rfl | rfl
    · exact ⟨⟨"c:c"⟩, by decide +kernel⟩
    · exact ⟨⟨"c:b"⟩, by decide +kernel⟩
    · exact ⟨⟨"c:a"⟩, by decide +kernel⟩
  obtain ⟨chain, hchain, _, _, hreads, hsource⟩ := walk_reads_back ⟨"w", none, circling, rfl⟩ hkeys
  have hfiles : (w.chainOf "c:c").map (fun files => (files.map File.uri, files.map File.text)) =
      .ok (["c:a", "c:b", "c:c"], ["a", "B", "c"]) := by decide +kernel
  rw [hchain] at hfiles
  have hboth := Except.ok.inj hfiles
  simp only [Prod.mk.injEq] at hboth
  refine ⟨chain, hchain, hboth.1, hreads, hsource.trans ?_⟩
  rw [hboth.2]
  rfl

end Workspace
end NotebookHub
