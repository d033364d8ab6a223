import NotebookHub.Hub.Handling

namespace NotebookHub.Act

variable {α β : Type}

@[simp] theorem on_pure (r : α) (h : Hub) : (pure r : Act α).on h = (h, .ok r) := rfl

@[simp] theorem on_get (h : Hub) : (get : Act Hub).on h = (h, .ok h) := rfl

@[simp] theorem on_modify (f : Hub → Hub) (h : Hub) :
    (modify f : Act Unit).on h = (f h, .ok ()) := rfl

theorem on_bind (a : Act α) (f : α → Act β) (h : Hub) :
    (a >>= f).on h = match a.on h with
      | (h', .ok x) => (f x).on h'
      | (h', .error e) => (h', .error e) := by
  simp only [on, EStateM.run, bind, EStateM.bind]
  cases a h <;> rfl

@[simp] theorem on_map (f : α → β) (a : Act α) (h : Hub) :
    (f <$> a).on h = ((a.on h).1, (a.on h).2.map f) := by
  simp only [on, EStateM.run, Functor.map, EStateM.map]
  cases a h <;> rfl

/-- A sequence succeeds when both parts do. -/
theorem bind_eq_ok {a : Act α} {f : α → Act β} {h h'' : Hub} {r : β} :
    (a >>= f).on h = (h'', .ok r) ↔
      ∃ h' x, a.on h = (h', .ok x) ∧ (f x).on h' = (h'', .ok r) := by
  rw [on_bind]
  rcases a.on h with ⟨h', e | x⟩
  · simp
  · constructor
    · intro hr
      exact ⟨h', x, rfl, hr⟩
    · rintro ⟨_, _, he, hr⟩
      cases he
      exact hr

@[simp] theorem on_lift_ok (x : α) (h : Hub) : (lift (.ok x)).on h = (h, .ok x) := rfl

@[simp] theorem on_lift_error (e : Uri.Error) (h : Hub) :
    (lift (.error e) : Act α).on h = (h, .error (.uri e)) := rfl

theorem lift_eq_ok {e : Except Uri.Error α} {h h' : Hub} {x : α} :
    (lift e).on h = (h', .ok x) ↔ h' = h ∧ e = .ok x := by
  cases e <;> simp [eq_comm]

theorem keyOf_eq_ok {uri : String} {h h' : Hub} {k : Key} :
    (keyOf uri).on h = (h', .ok k) ↔ h' = h ∧ Uri.key uri = .ok k := lift_eq_ok

theorem resolve_eq_ok {uri : String} {h h' : Hub} {a : Address} :
    (resolve uri).on h = (h', .ok a) ↔ h' = h ∧ Address.of uri = .ok a := lift_eq_ok

/-- Running `a` on a hub of the kind `P` leaves a hub of that kind. -/
def Preserves (P : Hub → Prop) (a : Act α) : Prop := ∀ h, P h → P (a.on h).1

namespace Preserves

variable {P : Hub → Prop}

theorem pure (r : α) : Preserves P (pure r : Act α) := fun _ h => h

theorem throw (e : Fault) : Preserves P (throw e : Act α) := fun _ h => h

theorem modify {f : Hub → Hub} (h : ∀ g, P g → P (f g)) : Preserves P (modify f : Act Unit) := h

/-- The rest may count on what the first part preserves and on its result. -/
theorem bind_of {a : Act α} {f : α → Act β} (ha : Preserves P a)
    (hf : ∀ h h' x, P h' → a.on h = (h', .ok x) → P ((f x).on h').1) : Preserves P (a >>= f) := by
  intro h hp
  have hp' := ha h hp
  rw [on_bind]
  rcases he : a.on h with ⟨h', e | x⟩
  · simpa [he] using hp'
  · rw [he] at hp'
    exact hf h h' x hp' he

theorem bind {a : Act α} {f : α → Act β} (ha : Preserves P a) (hf : ∀ x, Preserves P (f x)) :
    Preserves P (a >>= f) :=
  ha.bind_of fun _ h' x hp _ => hf x h' hp

theorem get_bind {f : Hub → Act β} (hf : ∀ h, P h → P ((f h).on h).1) :
    Preserves P (get >>= f) := fun h hp => by
  rw [on_bind]
  exact hf h hp

theorem map {a : Act α} (f : α → β) (ha : Preserves P a) : Preserves P (f <$> a) := fun h hp => by
  rw [on_map]
  exact ha h hp

theorem lift (e : Except Uri.Error α) : Preserves P (lift e) := fun _ hp => by cases e <;> exact hp

theorem keyOf_bind {uri : String} {f : Key → Act β}
    (hf : ∀ k, Uri.key uri = .ok k → Preserves P (f k)) : Preserves P (keyOf uri >>= f) :=
  (lift (Uri.key uri)).bind_of fun _ h' k hp he => hf k (keyOf_eq_ok.mp he).2 h' hp

theorem resolve_bind {uri : String} {f : Address → Act β}
    (hf : ∀ a, Address.of uri = .ok a → Preserves P (f a)) : Preserves P (resolve uri >>= f) :=
  (lift (Address.of uri)).bind_of fun _ h' a hp he => hf a (resolve_eq_ok.mp he).2 h' hp

theorem mapM {f : α → Act β} {l : List α} (hf : ∀ x ∈ l, Preserves P (f x)) :
    Preserves P (l.mapM f) := by
  induction l with
  | nil => exact pure []
  | cons x l ih =>
    rw [List.mapM_cons]
    exact (hf x (by simp)).bind fun _ => (ih fun y hy => hf y (by simp [hy])).bind fun _ => pure _

end Preserves

/-- When `a` succeeds on a hub of the kind `P`, its result and the hub that it leaves are of the
kind `Q`. -/
def Yields (P : Hub → Prop) (a : Act α) (Q : α → Hub → Prop) : Prop :=
  ∀ h g x, P h → a.on h = (g, .ok x) → Q x g

namespace Yields

variable {P : Hub → Prop} {Q : α → Hub → Prop}

theorem pure {x : α} (h : ∀ g, P g → Q x g) : Yields P (pure x) Q := by
  intro h₀ g y hp hy
  cases hy
  exact h h₀ hp

theorem modify {f : Hub → Hub} {Q : Unit → Hub → Prop} (h : ∀ g, P g → Q () (f g)) :
    Yields P (modify f) Q := by
  intro h₀ g x hp hx
  cases hx
  exact h h₀ hp

theorem any {a : Act α} : Yields P a fun _ _ => True := fun _ _ _ _ _ => trivial

theorem bind {R : β → Hub → Prop} {a : Act α} {f : α → Act β} (ha : Yields P a Q)
    (hf : ∀ x, Yields (Q x) (f x) R) : Yields P (a >>= f) R := by
  intro h g y hp hy
  obtain ⟨h', x, hx, hy⟩ := bind_eq_ok.mp hy
  exact hf x h' g y (ha h h' x hp hx) hy

theorem mono {P' : Hub → Prop} {a : Act α} (ha : Yields P a Q) (h : ∀ g, P' g → P g) :
    Yields P' a Q :=
  fun h₀ g x hp hx => ha h₀ g x (h h₀ hp) hx

theorem imp {Q' : α → Hub → Prop} {a : Act α} (ha : Yields P a Q) (h : ∀ x g, Q x g → Q' x g) :
    Yields P a Q' :=
  fun h₀ g x hp hx => h x g (ha h₀ g x hp hx)

theorem get_bind {f : Hub → Act α} (hf : ∀ h, Yields (fun g => g = h ∧ P g) (f h) Q) :
    Yields P (get >>= f) Q := by
  intro h g x hp hx
  exact hf h h g x ⟨rfl, hp⟩ hx

theorem lift_bind {e : Except Uri.Error β} {f : β → Act α}
    (hf : ∀ x, e = .ok x → Yields P (f x) Q) : Yields P (lift e >>= f) Q := by
  intro h g y hp hy
  obtain ⟨h', x, hx, hx'⟩ := bind_eq_ok.mp hy
  obtain ⟨rfl, he⟩ := lift_eq_ok.mp hx
  exact hf x he h' g y hp hx'

theorem of_preserves {a : Act α} (ha : Preserves P a) : Yields P a fun _ => P := by
  intro h g x hp hx
  have hg := ha h hp
  rwa [hx] at hg

/-- Results that come one by one are gathered behind those that were there. -/
theorem mapM {f : β → Act α} {l : List β} {I : List α → Hub → Prop}
    (hf : ∀ x ∈ l, ∀ ys, Yields (I ys) (f x) fun y => I (ys ++ [y])) (ys : List α) :
    Yields (I ys) (l.mapM f) fun zs => I (ys ++ zs) := by
  induction l generalizing ys with
  | nil => exact .pure fun g hg => by simpa using hg
  | cons x l ih =>
    rw [List.mapM_cons]
    refine (hf x (by simp) ys).bind fun y => ?_
    refine (ih (fun z hz => hf z (by simp [hz])) (ys ++ [y])).bind fun zs => ?_
    exact .pure fun g hg => by simpa using hg

end Yields

/-- Whenever `a` succeeds on one of two hubs related by `R`, `b` succeeds on the other, and the
results and the hubs that they leave are related by `V`. -/
def Matches (R : Hub → Hub → Prop) (a : Act α) (b : Act β) (V : α → β → Hub → Hub → Prop) : Prop :=
  ∀ h g h' x, R h g → a.on h = (h', .ok x) → ∃ g' y, b.on g = (g', .ok y) ∧ V x y h' g'

namespace Matches

variable {α' β' : Type} {R : Hub → Hub → Prop} {V : α → β → Hub → Hub → Prop}

theorem pure {x : α} {y : β} (hv : ∀ h g, R h g → V x y h g) : Matches R (pure x) (pure y) V := by
  intro h g h' x' hr hx
  cases hx
  exact ⟨g, y, rfl, hv h g hr⟩

theorem modify {f f' : Hub → Hub} {V : Unit → Unit → Hub → Hub → Prop}
    (hv : ∀ h g, R h g → V () () (f h) (f' g)) : Matches R (modify f) (modify f') V := by
  intro h g h' x hr hx
  cases hx
  exact ⟨f' g, (), rfl, hv h g hr⟩

theorem bind {a : Act α} {b : Act β} {f : α → Act α'} {f' : β → Act β'}
    {W : α' → β' → Hub → Hub → Prop} (ha : Matches R a b V)
    (hf : ∀ x y, Matches (V x y) (f x) (f' y) W) : Matches R (a >>= f) (b >>= f') W := by
  intro h g h' z hr hz
  obtain ⟨h₁, x, hx, hz⟩ := bind_eq_ok.mp hz
  obtain ⟨g₁, y, hy, hv⟩ := ha h g h₁ x hr hx
  obtain ⟨g', z', hz', hw⟩ := hf x y h₁ g₁ h' z hv hz
  exact ⟨g', z', bind_eq_ok.mpr ⟨g₁, y, hy, hz'⟩, hw⟩

theorem map {a : Act α} {b : Act β} {f : α → α'} {f' : β → β'} {W : α' → β' → Hub → Hub → Prop}
    (ha : Matches R a b V) (hf : ∀ x y h g, V x y h g → W (f x) (f' y) h g) :
    Matches R (f <$> a) (f' <$> b) W := by
  intro h g h' z hr hz
  rw [on_map] at hz
  rcases hx : a.on h with ⟨h₁, e | x⟩
  · rw [hx] at hz
    cases hz
  · rw [hx] at hz
    cases hz
    obtain ⟨g', y, hy, hv⟩ := ha h g h₁ x hr hx
    exact ⟨g', f' y, by rw [on_map, hy]; rfl, hf x y h₁ g' hv⟩

theorem get_bind {f : Hub → Act α} {f' : Hub → Act β}
    (hf : ∀ h g, R h g → Matches (fun h' g' => h' = h ∧ g' = g) (f h) (f' g) V) :
    Matches R (get >>= f) (get >>= f') V := by
  intro h g h' x hr hx
  obtain ⟨g', y, hy, hv⟩ := hf h g hr h g h' x ⟨rfl, rfl⟩ hx
  exact ⟨g', y, hy, hv⟩

theorem lift_bind {e : Except Uri.Error α'} {f : α' → Act α} {f' : α' → Act β}
    (hf : ∀ x, e = .ok x → Matches R (f x) (f' x) V) :
    Matches R (lift e >>= f) (lift e >>= f') V := by
  cases e with
  | error err =>
    intro h g h' x hr hx
    obtain ⟨_, _, hfail, _⟩ := bind_eq_ok.mp hx
    cases hfail
  | ok x => exact hf x rfl

theorem mono {R' : Hub → Hub → Prop} {a : Act α} {b : Act β} (hm : Matches R a b V)
    (hr : ∀ h g, R' h g → R h g) : Matches R' a b V :=
  fun h g h' x hr' hx => hm h g h' x (hr h g hr') hx

/-- What matches on related hubs does so on two that are at hand. -/
theorem between {a : Act α} {b : Act β} {h g : Hub} (hm : Matches R a b V) (hr : R h g) :
    Matches (fun h' g' => h' = h ∧ g' = g) a b V := by
  apply hm.mono
  rintro _ _ ⟨rfl, rfl⟩
  exact hr

theorem of_fact {p : Prop} {a : Act α} {b : Act β} (hm : p → Matches R a b V) :
    Matches (fun h g => p ∧ R h g) a b V :=
  fun h g h' x hr hx => hm hr.1 h g h' x hr.2 hx

theorem mapM {P : β → Prop} {f f' : α → Act β} {l : List α}
    (hf : ∀ x ∈ l, Matches R (f x) (f' x) fun y z h g => y = z ∧ P y ∧ R h g) :
    Matches R (l.mapM f) (l.mapM f') fun ys zs h g => ys = zs ∧ (∀ y ∈ ys, P y) ∧ R h g := by
  induction l with
  | nil => exact .pure fun _ _ hr => ⟨rfl, by simp, hr⟩
  | cons x l ih =>
    rw [List.mapM_cons, List.mapM_cons]
    refine (hf x (by simp)).bind fun y z => of_fact fun hyz => of_fact fun hy => ?_
    refine (ih fun x' hx => hf x' (List.mem_cons_of_mem x hx)).bind fun ys zs => ?_
    refine of_fact fun hys => of_fact fun hp => .pure fun h g hr => ?_
    exact ⟨by rw [hyz, hys], by simpa [hy] using hp, hr⟩

end Matches
end NotebookHub.Act
