import AbilityGraph.ControlFlow
import Mathlib.Logic.Relation

/-!
# Paths of control flow

`Flows` says that a control edge leads from one node to another, and `Reaches` that a path of
control edges does; the path may be empty. What an added edge changes is settled here once: a path
that uses it splits into a path to its source and a path from its target (`reaches_concat_iff`).

The adjacency that the searches look links up in holds exactly these links, whatever the order of
its entries.
-/

set_option autoImplicit false

namespace AbilityGraph

namespace ControlFlow

open Relation (ReflTransGen)

/-- A control edge leads from one node to another. -/
def Flows (edges : List Edge) (source target : String) : Prop :=
  ∃ e ∈ edges, e.kind = .control ∧ e.source.nodeId = source ∧ e.target.nodeId = target

/-- A path of control edges, possibly empty, leads from one node to another. -/
abbrev Reaches (edges : List Edge) : String → String → Prop := ReflTransGen (Flows edges)

/-- The flow goes from the source of a control edge to its target. -/
theorem Flows.of_mem {edges : List Edge} {edge : Edge} (hmem : edge ∈ edges)
    (hkind : edge.kind = .control) : Flows edges edge.source.nodeId edge.target.nodeId :=
  ⟨edge, hmem, hkind, rfl, rfl⟩

/-- The flow still goes from one node to another when there are more edges. -/
theorem Flows.mono {edges more : List Edge} (hsub : edges ⊆ more) {a b : String}
    (h : Flows edges a b) : Flows more a b := by
  obtain ⟨e, hmem, hkind, hsource, htarget⟩ := h
  exact ⟨e, hsub hmem, hkind, hsource, htarget⟩

/-- A path is still there when there are more edges. -/
theorem Reaches.mono {edges more : List Edge} (hsub : edges ⊆ more) {a b : String}
    (h : Reaches edges a b) : Reaches more a b :=
  ReflTransGen.mono (fun _ _ => Flows.mono hsub) _ _ h

/-- With a new edge the flow goes where it went before, and along the edge if it is a control
edge. -/
theorem flows_concat_iff {edges : List Edge} {edge : Edge} {a b : String} :
    Flows (edges ++ [edge]) a b ↔ Flows edges a b ∨
      (edge.kind = .control ∧ edge.source.nodeId = a ∧ edge.target.nodeId = b) := by
  constructor
  · rintro ⟨e, hmem, h⟩
    rcases List.mem_append.1 hmem with hmem | hmem
    · exact .inl ⟨e, hmem, h⟩
    · obtain rfl := List.mem_singleton.1 hmem
      exact .inr h
  · rintro (h | h)
    · exact h.mono (List.subset_append_left _ _)
    · exact ⟨edge, List.mem_append_right _ List.mem_cons_self, h⟩

/-- A path with an edge added avoids it, or leads to its source and goes on from its target. -/
theorem reaches_concat_iff {edges : List Edge} {edge : Edge} {a b : String} :
    Reaches (edges ++ [edge]) a b ↔ Reaches edges a b ∨
      (edge.kind = .control ∧ Reaches edges a edge.source.nodeId ∧
        Reaches edges edge.target.nodeId b) := by
  constructor
  · intro h
    induction h with
    | refl => exact .inl .refl
    | tail _ hlast ih =>
      rcases flows_concat_iff.1 hlast with hlast | ⟨hkind, rfl, rfl⟩
      · rcases ih with ih | ⟨hkind, hto, hfrom⟩
        · exact .inl (ih.tail hlast)
        · exact .inr ⟨hkind, hto, hfrom.tail hlast⟩
      · rcases ih with ih | ⟨-, hto, -⟩
        · exact .inr ⟨hkind, ih, .refl⟩
        · exact .inr ⟨hkind, hto, .refl⟩
  · rintro (h | ⟨hkind, hto, hfrom⟩)
    · exact h.mono (List.subset_append_left _ _)
    · have hedge : Flows (edges ++ [edge]) edge.source.nodeId edge.target.nodeId :=
        .of_mem (List.mem_append_right _ List.mem_cons_self) hkind
      exact ((hto.mono (List.subset_append_left _ _)).tail hedge).trans
        (hfrom.mono (List.subset_append_left _ _))

/-! ## Adjacency -/

namespace Adjacency

/-- A link out of a node, as an adjacency has it. -/
def HasLink (adjacency : Adjacency) (source target : String) : Prop :=
  target ∈ adjacency.targets source

/-- A path of links, possibly empty, leads from one node to another. -/
abbrev Path (adjacency : Adjacency) : String → String → Prop := ReflTransGen adjacency.HasLink

/-- No node has two entries. -/
def Distinct (adjacency : Adjacency) : Prop := (adjacency.map (·.1)).Nodup

/-- The source of a link is among the nodes at the ends of links. -/
theorem mem_ends_of_hasLink {adjacency : Adjacency} {source target : String}
    (h : adjacency.HasLink source target) : source ∈ adjacency.ends := by
  refine Decidable.byContradiction fun hout => ?_
  rw [HasLink, targets_eq_nil_of_not_mem_ends hout] at h
  cases h

/-- A new link adds its target to those of its source, as the last, and changes no others. -/
theorem targets_addLink (adjacency : Adjacency) (link : Link) (node : String) :
    (adjacency.addLink link).targets node =
      if node = link.1 then adjacency.targets node ++ [link.2] else adjacency.targets node := by
  induction adjacency with
  | nil =>
    by_cases h : node = link.1
    · simp [addLink, targets, h]
    · simp [addLink, targets, List.lookup_cons, beq_false_of_ne h, h]
  | cons entry rest ih =>
    obtain ⟨key, found⟩ := entry
    unfold addLink
    simp only [targets] at ih ⊢
    by_cases hentry : key = link.1
    · by_cases hnode : node = link.1
      · simp [hentry, hnode]
      · simp [hentry, hnode, List.lookup_cons, beq_false_of_ne hnode]
    · rw [if_neg hentry]
      by_cases hnode : node = key
      · simp [hnode, hentry]
      · simpa [List.lookup_cons, beq_false_of_ne hnode] using ih

/-- Adding a link keeps the entries for different nodes, and adds at most one for its source. -/
theorem distinct_addLink {adjacency : Adjacency} (link : Link) (h : adjacency.Distinct) :
    (adjacency.addLink link).Distinct ∧
      ∀ node ∈ (adjacency.addLink link).map (·.1), node = link.1 ∨ node ∈ adjacency.map (·.1) := by
  induction adjacency with
  | nil => simp [addLink, Distinct]
  | cons entry rest ih =>
    obtain ⟨hentry, hrest⟩ := List.nodup_cons.1 h
    obtain ⟨ihdistinct, ihkeys⟩ := ih hrest
    unfold addLink
    split
    next heq => exact ⟨h, fun node hnode => .inr hnode⟩
    next hne =>
      refine ⟨List.nodup_cons.2 ⟨fun hmem => ?_, ihdistinct⟩, fun node hnode => ?_⟩
      · rcases ihkeys _ hmem with heq | hmem
        · exact hne heq
        · exact hentry hmem
      · rcases List.mem_cons.1 hnode with rfl | hnode
        · exact .inr List.mem_cons_self
        · exact (ihkeys node hnode).imp_right (List.mem_cons_of_mem _)

/-- An adjacency built from links has one entry a node and just these links. -/
theorem ofLinks_spec (links : List Link) :
    (ofLinks links).Distinct ∧
      ∀ a b, HasLink (ofLinks links) a b ↔ (a, b) ∈ links := by
  have hfold : ∀ (rest : List Link) (adjacency : Adjacency), adjacency.Distinct →
      (rest.foldl (fun adjacency link => adjacency.addLink link) adjacency).Distinct ∧
        ∀ a b, HasLink (rest.foldl (fun adjacency link => adjacency.addLink link) adjacency) a b ↔
          HasLink adjacency a b ∨ (a, b) ∈ rest := by
    intro rest
    induction rest with
    | nil => exact fun adjacency h => ⟨h, by simp⟩
    | cons link rest ih =>
      intro adjacency h
      obtain ⟨hdistinct, hlinks⟩ := ih _ (distinct_addLink link h).1
      refine ⟨hdistinct, fun a b => (hlinks a b).trans ?_⟩
      have hadd : HasLink (adjacency.addLink link) a b ↔
          HasLink adjacency a b ∨ (a, b) = link := by
        unfold HasLink
        rw [targets_addLink, Prod.ext_iff]
        by_cases ha : a = link.1 <;> simp [ha]
      rw [hadd, List.mem_cons, or_assoc]
  obtain ⟨hdistinct, hlinks⟩ := hfold links [] List.nodup_nil
  exact ⟨hdistinct, fun a b => (hlinks a b).trans (by simp [HasLink, targets])⟩

/-- Where no node has two entries, a link stands in some entry of its node. -/
theorem hasLink_iff {adjacency : Adjacency} (h : adjacency.Distinct) {a b : String} :
    HasLink adjacency a b ↔ ∃ entry ∈ adjacency, entry.1 = a ∧ b ∈ entry.2 := by
  unfold HasLink targets
  constructor
  · intro hmem
    cases hlookup : adjacency.lookup a with
    | none =>
      rw [hlookup] at hmem
      cases hmem
    | some found =>
      rw [hlookup] at hmem
      obtain ⟨before, after, rfl, -⟩ := List.lookup_eq_some_iff.1 hlookup
      exact ⟨(a, found), by simp, rfl, hmem⟩
  · rintro ⟨entry, hentry, rfl, hmem⟩
    obtain ⟨before, after, rfl⟩ := List.append_of_mem hentry
    have hlookup : (before ++ entry :: after).lookup entry.1 = some entry.2 := by
      refine List.lookup_eq_some_iff.2 ⟨before, after, rfl, fun other hother => ?_⟩
      rw [Distinct, List.map_append, List.map_cons, List.nodup_append] at h
      have hne := h.2.2 other.1 (List.mem_map_of_mem hother) entry.1 List.mem_cons_self
      exact bne_iff_ne.2 hne.symm
    rw [hlookup]
    exact hmem

/-- The order of the entries plays no part in which links there are. -/
theorem hasLink_perm {adjacency other : Adjacency} (hperm : adjacency.Perm other)
    (h : other.Distinct) :
    adjacency.Distinct ∧ ∀ a b, HasLink adjacency a b ↔ HasLink other a b := by
  have hdistinct : adjacency.Distinct := (hperm.map _).nodup_iff.2 h
  refine ⟨hdistinct, fun a b => ?_⟩
  rw [hasLink_iff hdistinct, hasLink_iff h]
  simp only [hperm.mem_iff]

/-- The reversed adjacency has the links the other way round. -/
theorem hasLink_reversed {adjacency : Adjacency} (h : adjacency.Distinct) (a b : String) :
    HasLink adjacency.reversed a b ↔ HasLink adjacency b a := by
  rw [reversed, (ofLinks_spec _).2, hasLink_iff h]
  simp only [List.mem_flatMap, List.mem_map, Prod.mk.injEq]
  constructor
  · rintro ⟨entry, hentry, target, hmem, rfl, rfl⟩
    exact ⟨entry, hentry, rfl, hmem⟩
  · rintro ⟨entry, hentry, rfl, hmem⟩
    exact ⟨entry, hentry, a, hmem, rfl, rfl⟩

/-- The adjacency of edges has a link from one node to another just if the flow goes from the one to
the other. -/
theorem hasLink_ofEdges (edges : List Edge) (a b : String) :
    HasLink (ofEdges edges) a b ↔ Flows edges a b := by
  rw [ofEdges, (ofLinks_spec _).2]
  simp only [links, List.mem_map, List.mem_filter, beq_iff_eq, Prod.mk.injEq, Flows, and_assoc]

end Adjacency

end ControlFlow

end AbilityGraph
