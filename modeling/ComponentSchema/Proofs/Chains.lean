import ComponentSchema.Proofs.Moves
import ComponentSchema.Proofs.Origin

/-!
# Chains of references

A top-level component is registered under its own name, unless the chain of
references that starts at it comes to a placeholder or never ends. Each reference
that is followed reserves one more top-level name, so the budget of `enter` is
never used up.
-/

namespace ComponentSchema

open Registration Definition Relation

variable {components : Components}

/-! ## The names that are left -/

/-- The number of top-level names that are not bound. -/
def unbound (components : Components) (r : Registry) : Nat :=
  ((Entries.names components).filter fun name => !r.contains name).length

theorem unbound_le_length (components : Components) (r : Registry) :
    unbound components r ≤ components.length := by
  have h := List.length_filter_le (fun name => !r.contains name) (Entries.names components)
  rwa [Entries.names, List.length_map] at h

/-- The more names are bound, the fewer are left. -/
theorem unbound_mono {r s : Registry}
    (h : ∀ {name}, r.contains name = true → s.contains name = true) :
    unbound components s ≤ unbound components r := by
  rw [unbound, unbound, ← List.countP_eq_length_filter, ← List.countP_eq_length_filter]
  refine List.countP_mono_left fun name _ hs => ?_
  cases hr : r.contains name with
  | true => simp [h hr] at hs
  | false => rfl

theorem unbound_pos {r : Registry} {name : String}
    (ht : Entries.contains components name = true) (hn : r.contains name = false) :
    0 < unbound components r := by
  have hm : name ∈ (Entries.names components).filter fun name => !r.contains name :=
    List.mem_filter.mpr ⟨Entries.contains_iff_mem.mp ht, by simp [hn]⟩
  exact List.length_pos_of_mem hm

theorem contains_reserve (r : Registry) (name other : String) :
    (r.reserve name).contains other = (decide (other = name) || r.contains other) := by
  by_cases h : other = name
  · subst h
    simp [Registry.contains]
  · simp [Registry.contains, r.get?_reserve_ne h, h]

theorem unbound_reserve_lt {r : Registry} {name : String}
    (ht : Entries.contains components name = true) (hn : r.contains name = false) :
    unbound components (r.reserve name) < unbound components r := by
  have hfilter : ((Entries.names components).filter fun other => !(r.reserve name).contains other)
      = ((Entries.names components).filter fun other => !r.contains other).filter
          fun other => !decide (other = name) := by
    rw [List.filter_filter]
    congr 1
    funext other
    rw [contains_reserve, Bool.not_or]
  have hm : name ∈ (Entries.names components).filter fun name => !r.contains name :=
    List.mem_filter.mpr ⟨Entries.contains_iff_mem.mp ht, by simp [hn]⟩
  rw [unbound, hfilter]
  exact List.length_filter_lt_length_iff_exists.mpr ⟨name, hm, by simp⟩

/-! ## Clear chains -/

/-- No placeholder and no cycle is on the chain of references from `name`. -/
def Clear (components : Components) (r : Registry) (name : String) : Prop :=
  ∀ other, ReflTransGen (RefersTo components) name other →
    ¬ r.Placeholder other ∧ ¬ TransGen (RefersTo components) other other

theorem Clear.not_placeholder {r : Registry} {name : String} (h : Clear components r name) :
    ¬ r.Placeholder name :=
  (h name .refl).1

theorem Clear.finished {r : Registry} {name : String} (h : Clear components r name)
    (hc : r.contains name = true) : r.Finished name :=
  (Registry.finished_or_placeholder hc).resolve_right h.not_placeholder

theorem Clear.extend {r s : Registry} {name : String} (h : Clear components r name)
    (he : r.Extends s) : Clear components s name := by
  intro other ho
  obtain ⟨hp, hcycle⟩ := h other ho
  exact ⟨fun hs => hp (he.placeholder_iff.mp hs), hcycle⟩

theorem placeholder_reserve {r : Registry} {name other : String}
    (h : (r.reserve name).Placeholder other) : other = name ∨ r.Placeholder other := by
  by_cases hne : other = name
  · exact .inl hne
  · obtain ⟨object, ho, hi⟩ := h
    rw [r.get?_reserve_ne hne] at ho
    exact .inr ⟨object, ho, hi⟩

/-- The chain stays clear behind a name that is reserved, since it does not come
back to the name. -/
theorem Clear.reserve {r : Registry} {name target : String} (h : Clear components r name)
    (hr : RefersTo components name target) : Clear components (r.reserve name) target := by
  intro other ho
  obtain ⟨hp, hcycle⟩ := h other (.head hr ho)
  refine ⟨fun hs => ?_, hcycle⟩
  rcases placeholder_reserve hs with rfl | hs
  · exact hcycle (.head' hr ho)
  · exact hp hs

/-! ## Clear chains are registered to their end -/

section

variable {enter : String → Session Unit} {name : String} {d : Tree} {p q : Progress}

/-- Registering a top-level component binds its name for good if the chain from it
is clear, provided that following a reference finishes the target. -/
theorem register_settles (hc : ∀ target, Conservative (enter target))
    (hm : ∀ {target p q}, p.registry.Grounded → Yields (enter target) p () q →
      Moves components p q)
    (hd : Entries.get? components name = some d) (hp : p.registry.Grounded)
    (hclear : Clear components p.registry name)
    (hs : ∀ {target m}, RefersTo components name target →
      Entries.contains components target = true → p.registry.contains name = false →
      Yields (enter target) (p.update (·.reserve name)) () m → m.registry.Finished target)
    {key : String} {required : Bool}
    (h : Yields (register components enter [] name d) p (key, required) q) :
    q.registry.Finished name := by
  have hreg : Conservative (register components enter [] name d) := .register hc [] name d
  have hclear' := hclear.extend (hreg.yields hp h).2
  have hv := (register_moves hc hm (.top hd) hp h).2
  obtain ⟨fields, form, rfl, hf, hh, -, -, he⟩ := yields_register.mp h
  cases form with
  | primitive kind =>
    rcases yields_aliasPrimitive.mp he with ⟨hn, rfl⟩ | ⟨-, hk, -⟩ | ⟨-, object, ho, rfl⟩
    · exact hclear.finished hn
    · obtain ⟨object, ho, -⟩ := hp.kinds kind
      rw [hk] at ho
      cases ho
    · exact hclear'.finished (Registry.contains_of_get? (Registry.get?_share_self _ _ _))
  | map => exact hclear'.finished (hv.bound (.inl hf))
  | list => exact hclear'.finished (hv.bound (.inr hf))
  | reference target =>
    have href : RefersTo components name target := ⟨_, hd, hf⟩
    rcases yields_aliasTarget.mp he with ⟨hn, rfl⟩ | ⟨hn, m, hy, hq⟩
    · exact hclear.finished hn
    · have hfin := hs href (hh.target hf) hn hy
      rcases hq with ⟨hnot, -⟩ | ⟨object, -, hi, rfl⟩
      · exact absurd hfin hnot
      · have hself : (m.registry.share name object).Finished name :=
          ⟨object, Registry.get?_share_self _ _ _, hi⟩
        rw [Progress.release_finished hself]
        exact hself

end

/-- Following a reference finishes its target if the chain from it is clear. The
induction is on the budget, which is at least the number of names that are left. -/
theorem enterWithin_settles {beyond : String → Session Unit}
    (hc : ∀ target, Conservative (beyond target))
    (hm : ∀ {target p q}, p.registry.Grounded → Yields (beyond target) p () q →
      Moves components p q)
    (budget : Nat) {name : String} {p q : Progress} (hp : p.registry.Grounded)
    (ht : Entries.contains components name = true)
    (hb : unbound components p.registry ≤ budget) (hclear : Clear components p.registry name)
    (h : Yields (enterWithin components beyond budget name) p () q) :
    q.registry.Finished name := by
  induction budget generalizing name p q with
  | zero =>
    -- no top-level name is left, so this one is bound
    have hn : p.registry.contains name = true := by
      cases hn : p.registry.contains name with
      | true => rfl
      | false =>
        have := unbound_pos ht hn
        omega
    exact ((hc name).yields hp h).2.finished (hclear.finished hn)
  | succ budget ih =>
    rcases yields_enterWithin_succ.mp h with ⟨hn, rfl⟩ | ⟨hn, d, key, required, hd, hy⟩
    · exact hclear.finished hn
    · refine register_settles (.enterWithin hc budget) (enterWithin_moves hc hm budget) hd hp
        hclear ?_ hy
      intro target m href htarget _ hy
      -- the reservation uses up one name, as the step uses up one unit of the budget
      have hlt := unbound_reserve_lt ht hn
      exact ih (hp.reserve (Registry.not_contains_iff.mp hn)) htarget
        (show unbound components (p.registry.reserve name) ≤ budget by omega)
        (hclear.reserve href) hy

theorem enter_settles {name : String} {p q : Progress} (hp : p.registry.Grounded)
    (ht : Entries.contains components name = true) (hclear : Clear components p.registry name)
    (h : Yields (enter components name) p () q) : q.registry.Finished name :=
  enterWithin_settles (fun _ => .pure ()) (fun _ => pure_moves) _ hp ht
    (unbound_le_length components p.registry) hclear h

end ComponentSchema
