import ChainTypings.Proofs.Render.Errors
import Mathlib.Logic.Relation
import Mathlib.Data.List.Perm.Subperm

/-!
# Rendering without cycles

Indirections are followed only so often as there are entries. If none leads back to where it came
from, that is often enough: the entries that lie on a path of indirections are distinct, so the
path is no longer than the registry. So rendering fails only as some node accounts for, and never
for want of hops (`allErrors_render`).
-/

namespace ChainTypings

open Relation

/-- No indirection leads back to where it came from. -/
def Registry.Acyclic (r : Registry) : Prop := ∀ shape, ¬ TransGen r.Leads shape shape

/-- No indirection that is met on the way from the shape leads back to where it came from. -/
def Registry.AcyclicFrom (r : Registry) (shape : Shape) : Prop :=
  ∀ entry, TransGen r.Leads shape entry → ¬ TransGen r.Leads entry entry

theorem Registry.Acyclic.acyclicFrom {r : Registry} (h : r.Acyclic) (shape : Shape) :
    r.AcyclicFrom shape := fun entry _ => h entry

theorem Registry.AcyclicFrom.next {r : Registry} {shape entry : Shape} (h : r.AcyclicFrom shape)
    (hleads : r.Leads shape entry) : r.AcyclicFrom entry :=
  fun e he => h e (TransGen.head hleads he)

theorem Registry.exists_mem_of_leads {r : Registry} {shape entry : Shape}
    (h : r.Leads shape entry) : ∃ k, (k, entry) ∈ r.entries := by
  obtain ⟨_, _, _, htarget⟩ := h
  exact Scope.exists_mem_of_target htarget

/-- Where each entry leads only to entries of a lower rank there are no cycles. -/
theorem Registry.acyclic_of_rank {r : Registry} (rank : Shape → Nat)
    (h : ∀ e ∈ r.entries, ∀ k ∈ e.2.heads, k.tag = .si → ∀ entry,
      Scope.target ⟨r, []⟩ k = .ok entry → rank entry < rank e.2) : r.Acyclic := by
  have step : ∀ {e entry : Shape}, (∃ k, (k, e) ∈ r.entries) → r.Leads e entry →
      rank entry < rank e := by
    rintro e entry ⟨k, hk⟩ ⟨t, ht, htag, htarget⟩
    exact h _ hk _ (ht.mem_heads t.head_mem_heads) htag entry htarget
  have chain : ∀ {e entry : Shape}, (∃ k, (k, e) ∈ r.entries) → TransGen r.Leads e entry →
      rank entry < rank e := by
    intro e entry he hchain
    induction hchain with
    | single hleads => exact step he hleads
    | tail hchain hleads ih =>
      obtain ⟨_, _, hmid⟩ := TransGen.tail'_iff.1 hchain
      exact (step (exists_mem_of_leads hmid) hleads).trans ih
  intro shape hcycle
  -- a shape on a cycle is led to, so it is an entry
  obtain ⟨_, _, hlast⟩ := TransGen.tail'_iff.1 hcycle
  exact absurd (chain (exists_mem_of_leads hlast) hcycle) (Nat.lt_irrefl _)

namespace Scope

variable {s : Scope} {p : RenderError → Prop}

/-- Entries on the way to a shape, each once, and as many hops left as there are other entries. -/
structure Path (s : Scope) (visited : List Shape) (hops : Nat) (shape : Shape) : Prop where
  nodup : visited.Nodup
  entries : ∀ v ∈ visited, ∃ k, (k, v) ∈ s.registry.entries
  leads : ∀ v ∈ visited, ReflTransGen s.registry.Leads v shape
  enough : s.registry.entries.length ≤ visited.length + hops

theorem Path.length_le {visited : List Shape} {hops : Nat} {shape : Shape}
    (h : s.Path visited hops shape) : visited.length ≤ s.registry.entries.length := by
  have hsub : visited ⊆ s.registry.entries.map (·.2) := by
    intro v hv
    obtain ⟨k, hk⟩ := h.entries v hv
    exact List.mem_map_of_mem hk
  simpa using (List.subperm_of_subset h.nodup hsub).length_le

/-- One more indirection is followed to an entry that is new, and there was a hop left for it. -/
theorem Path.step {visited : List Shape} {hops : Nat} {shape entry : Shape}
    (h : s.Path visited hops shape) (hacyclic : s.registry.AcyclicFrom shape)
    (hleads : s.registry.Leads shape entry) :
    ∃ fewer, hops = fewer + 1 ∧ s.Path (entry :: visited) fewer entry := by
  have hnew : entry ∉ visited := by
    intro hv
    exact hacyclic entry (.single hleads) (TransGen.tail' (h.leads entry hv) hleads)
  have hpath : ∀ fewer, s.registry.entries.length ≤ visited.length + 1 + fewer →
      s.Path (entry :: visited) fewer entry := by
    intro fewer henough
    refine ⟨List.nodup_cons.2 ⟨hnew, h.nodup⟩, ?_, ?_, henough⟩
    · intro v hv
      rcases List.mem_cons.1 hv with rfl | hv
      · exact Registry.exists_mem_of_leads hleads
      · exact h.entries v hv
    · intro v hv
      rcases List.mem_cons.1 hv with rfl | hv
      · exact .refl
      · exact (h.leads v hv).tail hleads
  have henough := h.enough
  cases hops with
  | zero =>
    -- the entries that were visited are all there are, so the new one is none
    have hlength := (hpath 0 (by omega)).length_le
    rw [List.length_cons] at hlength
    omega
  | succ fewer => exact ⟨fewer, rfl, hpath fewer (by omega)⟩

/-- With no hop left no indirection is left to follow. -/
theorem Path.not_leads {visited : List Shape} {shape entry : Shape} (h : s.Path visited 0 shape)
    (hacyclic : s.registry.AcyclicFrom shape) : ¬ s.registry.Leads shape entry := by
  intro hleads
  obtain ⟨fewer, hfewer, -⟩ := h.step hacyclic hleads
  exact Nat.succ_ne_zero fewer hfewer.symm

theorem Path.next {visited : List Shape} {hops : Nat} {shape entry : Shape}
    (h : s.Path visited (hops + 1) shape) (hacyclic : s.registry.AcyclicFrom shape)
    (hleads : s.registry.Leads shape entry) : s.Path (entry :: visited) hops entry := by
  obtain ⟨fewer, hfewer, hnext⟩ := h.step hacyclic hleads
  obtain rfl := Nat.succ.inj hfewer
  exact hnext

/-- At first there is a hop for every entry. -/
theorem Path.start (s : Scope) (shape : Shape) : s.Path [] s.registry.entries.length shape :=
  ⟨List.nodup_nil, by simp, by simp, by simp⟩

/-- What the entries account for, following a path of indirections ends in nothing else. -/
theorem allErrors_renderWithin
    (hr : ∀ e ∈ s.registry.entries, ∀ t, e.2.Reaches t → s.Accounts p t) {hops : Nat}
    {visited : List Shape} {shape : Shape} (hpath : s.Path visited hops shape)
    (hacyclic : s.registry.AcyclicFrom shape)
    (hs : ∀ t, shape.Reaches t → s.Accounts p t) (hint : Option String) :
    (s.renderWithin hops shape hint).AllErrors p := by
  induction hops generalizing visited shape hint with
  | zero =>
    refine allErrors_renderShape hs (fun entry hentry => ?_) hint
    exact absurd hentry (hpath.not_leads hacyclic)
  | succ hops ih =>
    refine allErrors_renderShape hs (fun entry hentry => ?_) hint
    obtain ⟨k, hk⟩ := Registry.exists_mem_of_leads hentry
    exact ih (hpath.next hacyclic hentry) (hacyclic.next hentry) (hr _ hk) none

/-- Without cycles rendering fails only as the nodes that it comes by account for. -/
theorem allErrors_render
    (hr : ∀ e ∈ s.registry.entries, ∀ t, e.2.Reaches t → s.Accounts p t) {shape : Shape}
    (hacyclic : s.registry.AcyclicFrom shape) (hs : ∀ t, shape.Reaches t → s.Accounts p t)
    (hint : Option String) : (s.render shape hint).AllErrors p :=
  allErrors_renderWithin hr (.start s shape) hacyclic hs hint

end Scope

end ChainTypings
