import AbilityGraph.Proofs.ControlFlow.Search

/-!
# Components and loops

Two nodes are `Joined` if paths lead both ways between them. The components that `components`
numbers are the classes of joined nodes, and an edge lies on a loop exactly if its nodes are joined
(`loopEdgesIn_eq_filter`), in whatever order the entries of the adjacency are taken. Edges that
carry values have no part in it (`loopEdgesIn_follow_paths`).

The argument follows the two passes. The depth-first walk is done with the nodes in such an order
that whenever a path leads from one node to another, some node joined to the first is done no
earlier than the second (`Late`); the nodes on the stack stand in for those that are not done yet
(`Walking.late`). Going backwards from the nodes in that order then meets each component by itself,
since what else leads to a node has a number by then (`Numbering`).
-/

set_option autoImplicit false

namespace AbilityGraph

namespace ControlFlow

open Relation (ReflTransGen)

/-- Paths lead both ways between two nodes. -/
def Joined (adjacency : Adjacency) (a b : String) : Prop :=
  adjacency.Path a b ∧ adjacency.Path b a

namespace Joined

variable {adjacency : Adjacency} {a b c : String}

/-- A node is joined to itself. -/
theorem refl (a : String) : Joined adjacency a a := ⟨.refl, .refl⟩

/-- If a node is joined to another, then the other is joined to it. -/
theorem symm (h : Joined adjacency a b) : Joined adjacency b a := ⟨h.2, h.1⟩

/-- Nodes that are joined to the same node are joined. -/
theorem trans (hab : Joined adjacency a b) (hbc : Joined adjacency b c) : Joined adjacency a c :=
  ⟨hab.1.trans hbc.1, hbc.2.trans hab.2⟩

end Joined

/-! ## The order in which nodes are done -/

/-- Of the nodes that are done, the one done last first: at each of them, every node with a path to
it is joined to a node that was done no earlier. -/
def Late (adjacency : Adjacency) (finished : List String) : Prop :=
  ∀ before node after, finished = before ++ node :: after →
    ∀ x ∈ finished, adjacency.Path x node → ∃ z ∈ before ++ [node], Joined adjacency z x

/-- What holds of a depth-first walk all the time. -/
structure Walking (adjacency : Adjacency) (visited finished : List String) (stack : List Frame) :
    Prop where
  /-- The nodes visited are those that are done and those on the stack. -/
  mem_visited : ∀ node, node ∈ visited ↔ node ∈ finished ∨ node ∈ stack.map (·.node)
  /-- No node is on the stack twice, or on the stack and done. -/
  nodup : (finished ++ stack.map (·.node)).Nodup
  /-- The links out of nodes that are done lead to nodes visited. -/
  done : ∀ node ∈ finished, ∀ target, adjacency.HasLink node target → target ∈ visited
  /-- So do the links out of a node on the stack that have been looked at. -/
  looked : ∀ frame ∈ stack, ∀ target, adjacency.HasLink frame.node target →
    target ∈ visited ∨ target ∈ frame.rest
  /-- What has not been looked at are links. -/
  rest : ∀ frame ∈ stack, ∀ target ∈ frame.rest, adjacency.HasLink frame.node target
  /-- A path leads up the stack. -/
  climbs : (stack.map (·.node)).Pairwise fun upper lower => adjacency.Path lower upper
  /-- A path from a node that is done leads to one done no later than some node joined to the first,
  unless a node joined to the first is on the stack. -/
  late : ∀ x ∈ finished, ∀ y, adjacency.Path x y →
    (∃ node ∈ stack.map (·.node), Joined adjacency node x) ∨
      (y ∈ finished ∧ ∀ before after, finished = before ++ y :: after →
        ∃ z ∈ before ++ [y], Joined adjacency z x)

namespace Walking

variable {adjacency : Adjacency} {visited finished : List String} {stack : List Frame}

/-- A target that was visited before is passed over; nothing else changes. -/
theorem skip {node target : String} {rest : List String} (above : List Frame) {below : List Frame}
    (h : Walking adjacency visited finished (above ++ ⟨node, target :: rest⟩ :: below))
    (htarget : target ∈ visited) :
    Walking adjacency visited finished (above ++ ⟨node, rest⟩ :: below) where
  mem_visited := by simpa using h.mem_visited
  nodup := by simpa using h.nodup
  done := h.done
  looked frame hframe t ht := by
    by_cases heq : frame = ⟨node, rest⟩
    · subst heq
      rcases h.looked ⟨node, target :: rest⟩ (by simp) t ht with hv | hrest
      · exact .inl hv
      · rcases List.mem_cons.1 hrest with rfl | hrest
        · exact .inl htarget
        · exact .inr hrest
    · refine h.looked frame ?_ t ht
      simp only [List.mem_append, List.mem_cons, heq, false_or] at hframe ⊢
      exact hframe.imp_right .inr
  rest frame hframe t ht := by
    by_cases heq : frame = ⟨node, rest⟩
    · subst heq
      exact h.rest ⟨node, target :: rest⟩ (by simp) t (List.mem_cons_of_mem _ ht)
    · refine h.rest frame ?_ t ht
      simp only [List.mem_append, List.mem_cons, heq, false_or] at hframe ⊢
      exact hframe.imp_right .inr
  climbs := by simpa using h.climbs
  late := by simpa using h.late

/-- A walk goes on with a visit to a new node that paths lead to from the nodes on the stack. -/
theorem push (h : Walking adjacency visited finished stack) {target : String}
    (hnew : target ∉ visited)
    (hpath : ∀ node ∈ stack.map (·.node), adjacency.Path node target) :
    Walking adjacency (target :: visited) finished
      (⟨target, adjacency.targets target⟩ :: stack) where
  mem_visited node := by
    simp only [List.mem_cons, List.map_cons, h.mem_visited]
    exact or_left_comm
  nodup := by
    have hout := mt (h.mem_visited target).2 hnew
    rw [List.map_cons]
    refine List.perm_middle.symm.nodup (List.nodup_cons.2 ⟨?_, h.nodup⟩)
    simpa using hout
  done node hnode t ht := List.mem_cons_of_mem _ (h.done node hnode t ht)
  looked frame hframe t ht := by
    rcases List.mem_cons.1 hframe with rfl | hframe
    · exact .inr ht
    · exact (h.looked frame hframe t ht).imp_left (List.mem_cons_of_mem _)
  rest frame hframe t ht := by
    rcases List.mem_cons.1 hframe with rfl | hframe
    · exact ht
    · exact h.rest frame hframe t ht
  climbs := List.pairwise_cons.2 ⟨hpath, h.climbs⟩
  late x hx y hpath := by
    refine (h.late x hx y hpath).imp_left ?_
    rintro ⟨node, hnode, hjoined⟩
    exact ⟨node, List.mem_cons_of_mem _ hnode, hjoined⟩

/-- When the walk is done with a node, a path from it leads to a node that is done, or the node is
joined to one that stays on the stack. -/
theorem path_from_top {node : String}
    (h : Walking adjacency visited finished (⟨node, []⟩ :: stack)) {y : String}
    (hpath : adjacency.Path node y) :
    y ∈ node :: finished ∨ ∃ other ∈ stack.map (·.node), Joined adjacency other node := by
  induction hpath with
  | refl => exact .inl List.mem_cons_self
  | @tail y next hpath hlink ih =>
    refine ih.elim (fun hy => ?_) .inr
    have hvisited : next ∈ visited := by
      rcases List.mem_cons.1 hy with rfl | hy
      · exact (h.looked _ List.mem_cons_self next hlink).resolve_right (by simp)
      · exact h.done y hy next hlink
    rcases (h.mem_visited next).1 hvisited with hdone | hstack
    · exact .inl (List.mem_cons_of_mem _ hdone)
    · rw [List.map_cons, List.mem_cons] at hstack
      rcases hstack with rfl | hstack
      · exact .inl List.mem_cons_self
      · have hclimb := (List.pairwise_cons.1 h.climbs).1 next hstack
        exact .inr ⟨next, hstack, hclimb, hpath.tail hlink⟩

/-- A walk goes on after it is done with the node on top of the stack. -/
theorem pop {node : String} (h : Walking adjacency visited finished (⟨node, []⟩ :: stack)) :
    Walking adjacency visited (node :: finished) stack where
  mem_visited other := by
    rw [h.mem_visited]
    simp only [List.map_cons, List.mem_cons, or_assoc]
    exact or_left_comm
  nodup := by
    have := h.nodup
    rw [List.map_cons] at this
    exact List.perm_middle.nodup this
  done other hother t ht := by
    rcases List.mem_cons.1 hother with rfl | hother
    · exact (h.looked _ List.mem_cons_self t ht).resolve_right (by simp)
    · exact h.done other hother t ht
  looked frame hframe := h.looked frame (List.mem_cons_of_mem _ hframe)
  rest frame hframe := h.rest frame (List.mem_cons_of_mem _ hframe)
  climbs := (List.pairwise_cons.1 h.climbs).2
  late x hx y hpath := by
    -- the node done last is in front of every split of the new order
    have hfront : ∀ x, Joined adjacency node x → ∀ y before after,
        node :: finished = before ++ y :: after → ∃ z ∈ before ++ [y], Joined adjacency z x := by
      intro x hjoined y before after hsplit
      refine ⟨node, ?_, hjoined⟩
      cases before with
      | nil => simp_all
      | cons first before => simp_all
    have hjoins : Joined adjacency node x →
        (∃ other ∈ stack.map (·.node), Joined adjacency other x) ∨
          (y ∈ node :: finished ∧ ∀ before after, node :: finished = before ++ y :: after →
            ∃ z ∈ before ++ [y], Joined adjacency z x) := by
      intro hjoined
      rcases h.path_from_top (hjoined.1.trans hpath) with hy | ⟨other, hother, hnode⟩
      · exact .inr ⟨hy, hfront x hjoined y⟩
      · exact .inl ⟨other, hother, hnode.trans hjoined⟩
    rcases List.mem_cons.1 hx with rfl | hx
    · exact hjoins (.refl x)
    · rcases h.late x hx y hpath with ⟨other, hother, hjoined⟩ | ⟨hy, hsplits⟩
      · rcases List.mem_cons.1 hother with rfl | hother
        · exact hjoins hjoined
        · exact .inl ⟨other, hother, hjoined⟩
      · refine .inr ⟨List.mem_cons_of_mem _ hy, fun before after hsplit => ?_⟩
        cases before with
        | nil =>
          have hout := (List.nodup_append.1 h.nodup).2.2 y hy node (by simp)
          simp_all
        | cons first before =>
          obtain ⟨z, hz, hjoined⟩ := hsplits before after (by simp_all)
          exact ⟨z, List.mem_cons_of_mem _ hz, hjoined⟩

/-- A walk from a stack goes on until the stack is empty, and visits no fewer nodes. -/
theorem finishStack (h : Walking adjacency visited finished stack) :
    Walking adjacency (finishStack adjacency visited finished stack).1
        (finishStack adjacency visited finished stack).2 [] ∧
      ∀ node ∈ visited, node ∈ (ControlFlow.finishStack adjacency visited finished stack).1 := by
  fun_induction ControlFlow.finishStack adjacency visited finished stack with
  | case1 visited finished => exact ⟨h, fun _ => id⟩
  | case2 visited finished node stack ih => exact ih h.pop
  | case3 visited finished node target rest stack hvisited ih =>
    exact ih (h.skip [] (List.contains_iff_mem.1 hvisited))
  | case4 visited finished node target rest stack hnew ih =>
    have hnew : target ∉ visited := fun hmem => hnew (List.contains_iff_mem.2 hmem)
    have hlink := h.rest _ List.mem_cons_self target List.mem_cons_self
    have hpushed := h.push hnew fun other hother => by
      rcases List.mem_cons.1 hother with rfl | hother
      · exact .single hlink
      · exact ((List.pairwise_cons.1 h.climbs).1 other hother).tail hlink
    obtain ⟨hdone, hvisited⟩ := ih (hpushed.skip [_] List.mem_cons_self)
    exact ⟨hdone, fun other hother => hvisited other (List.mem_cons_of_mem _ hother)⟩

/-- A walk from all roots in turn is done with each of them, with no node twice, and with the nodes
in the order from which components can be told. -/
theorem finishAll (h : Walking adjacency visited finished []) (roots : List String) :
    (∀ node, node ∈ visited ∨ node ∈ roots →
        node ∈ ControlFlow.finishAll adjacency visited finished roots) ∧
      (ControlFlow.finishAll adjacency visited finished roots).Nodup ∧
      Late adjacency (ControlFlow.finishAll adjacency visited finished roots) := by
  induction roots generalizing visited finished with
  | nil =>
    refine ⟨fun node hnode => ?_, by simpa [ControlFlow.finishAll] using h.nodup, ?_⟩
    · have hvisited := hnode.resolve_right (by simp)
      exact ((h.mem_visited node).1 hvisited).resolve_right (by simp)
    · intro before node after hsplit x hx hpath
      obtain ⟨-, hsplits⟩ := (h.late x hx node hpath).resolve_left (by simp)
      exact hsplits before after hsplit
  | cons root rest ih =>
    unfold ControlFlow.finishAll
    split
    next hvisited =>
      obtain ⟨hmem, hlate⟩ := ih h
      refine ⟨fun node hnode => hmem node ?_, hlate⟩
      rcases hnode with hnode | hnode
      · exact .inl hnode
      · rcases List.mem_cons.1 hnode with rfl | hnode
        · exact .inl (List.contains_iff_mem.1 hvisited)
        · exact .inr hnode
    next hnew =>
      have hnew : root ∉ visited := fun hmem => hnew (List.contains_iff_mem.2 hmem)
      obtain ⟨hdone, hvisited⟩ := (h.push hnew (by simp)).finishStack
      obtain ⟨hmem, hlate⟩ := ih hdone
      refine ⟨fun node hnode => hmem node ?_, hlate⟩
      rcases hnode with hnode | hnode
      · exact .inl (hvisited node (List.mem_cons_of_mem _ hnode))
      · rcases List.mem_cons.1 hnode with rfl | hnode
        · exact .inl (hvisited node List.mem_cons_self)
        · exact .inr hnode

end Walking

/-- At first nothing is visited and nothing is done. -/
theorem walking_nil (adjacency : Adjacency) : Walking adjacency [] [] [] where
  mem_visited := by simp
  nodup := by simp
  done := by simp
  looked := by simp
  rest := by simp
  climbs := by simp
  late := by simp

/-- The walk is done with every node that has links, with none twice, and in the order from which
components can be told. -/
theorem finishingOrder_spec (adjacency : Adjacency) :
    (∀ node ∈ adjacency.ends, node ∈ finishingOrder adjacency) ∧
      (finishingOrder adjacency).Nodup ∧ Late adjacency (finishingOrder adjacency) := by
  obtain ⟨hmem, hspec⟩ := (walking_nil adjacency).finishAll adjacency.ends
  exact ⟨fun node hnode => hmem node (.inr hnode), hspec⟩

/-! ## The numbers of components -/

/-- What holds of the numbers given so far: with a node all nodes that lead to it have one, and the
nodes with one number are those that are joined. -/
structure Numbering (adjacency : Adjacency) (numbers : Marks Nat) (next : Nat) : Prop where
  closed : ∀ x y, numbers.has x = true → adjacency.Path y x → numbers.has y = true
  same : ∀ x y n, numbers.lookup x = some n →
    (numbers.lookup y = some n ↔ Joined adjacency x y)
  fresh : ∀ x n, numbers.lookup x = some n → n < next

namespace Numbering

variable {adjacency reverse : Adjacency} {numbers : Marks Nat} {next : Nat}

/-- Going backwards from a node gives a new number to it and to the nodes without a number that
paths lead from to it. -/
theorem lookup_search_iff (h : Numbering adjacency numbers next)
    (hreverse : ∀ a b, reverse.HasLink a b ↔ adjacency.HasLink b a) {root : String}
    (hnew : numbers.lookup root = none) (x : String) (n : Nat) :
    (search .newest next reverse (fun _ => false) ((root, next) :: numbers) [root]).lookup x
        = some n ↔
      numbers.lookup x = some n ∨
        (numbers.lookup x = none ∧ adjacency.Path x root ∧ n = next) := by
  have hback : ∀ a b, reverse.Path a b ↔ adjacency.Path b a := by
    intro a b
    have hswap : reverse.HasLink = Function.swap adjacency.HasLink := by
      funext a b
      exact propext (hreverse a b)
    rw [Adjacency.Path, hswap]
    exact Relation.reflTransGen_swap
  -- Nodes that lead to a numbered node have numbers, so going backwards from there finds no new
  -- one.
  have hsettled : Settled reverse ((root, next) :: numbers) [root] := by
    intro node hnode
    rcases (Marks.has_cons ..).1 hnode with rfl | hnode
    · exact .inl List.mem_cons_self
    · refine .inr fun target htarget => (Marks.has_cons ..).2 (.inr ?_)
      exact h.closed node target hnode (.single ((hreverse ..).1 htarget))
  have hwaiting : ∀ node ∈ [root], Marks.has ((root, next) :: numbers) node = true := by
    simp [Marks.has]
  have hfound := has_search_iff .newest next reverse _ _ hwaiting hsettled x
  simp only [List.mem_singleton, exists_eq_left, hback] at hfound
  rw [lookup_search, Marks.lookup_cons]
  by_cases hroot : x = root
  · subst hroot
    have hself : adjacency.Path x x := .refl
    simp only [hnew, if_true, Option.some_or, Option.some.injEq, hself, true_and, reduceCtorEq,
      false_or]
    exact eq_comm
  · have hcons : Marks.has ((root, next) :: numbers) x = numbers.has x := by
      simp [Marks.has, Marks.lookup_cons, hroot]
    rw [hcons] at hfound
    cases hlookup : numbers.lookup x with
    | some number => simp [hroot]
    | none =>
      have hnone : numbers.has x = false := by simp [Marks.has, hlookup]
      simp only [hroot, if_false, Option.none_or, hfound, hnone, Bool.false_eq_true,
        false_or, Option.ite_none_right_eq_some, Option.some.injEq, reduceCtorEq, true_and]
      exact and_congr_right fun _ => eq_comm

/-- The numbers given stay right with a component added, if all nodes without a number that lead to
its first node are joined to that. -/
theorem search (h : Numbering adjacency numbers next)
    (hreverse : ∀ a b, reverse.HasLink a b ↔ adjacency.HasLink b a) {root : String}
    (hnew : numbers.lookup root = none)
    (hjoined : ∀ x, numbers.lookup x = none → adjacency.Path x root → Joined adjacency x root) :
    Numbering adjacency
      (search .newest next reverse (fun _ => false) ((root, next) :: numbers) [root])
      (next + 1) where
  closed x y hx hpath := by
    obtain ⟨n, hn⟩ := Option.isSome_iff_exists.1 hx
    refine Option.isSome_iff_exists.2 ?_
    simp only [h.lookup_search_iff hreverse hnew] at hn ⊢
    cases hy : numbers.lookup y with
    | some number => exact ⟨number, .inl rfl⟩
    | none =>
      refine ⟨next, .inr ⟨rfl, ?_, rfl⟩⟩
      rcases hn with hn | ⟨-, hroot, -⟩
      · have := h.closed x y (by simp [Marks.has, hn]) hpath
        simp [Marks.has, hy] at this
      · exact hpath.trans hroot
  same x y n hx := by
    rw [h.lookup_search_iff hreverse hnew] at hx ⊢
    rcases hx with hx | ⟨hx, hroot, rfl⟩
    · rw [← h.same x y n hx]
      have := h.fresh x n hx
      refine or_iff_left ?_
      rintro ⟨-, -, rfl⟩
      exact Nat.lt_irrefl _ this
    · constructor
      · rintro (hy | ⟨hy, hyroot, -⟩)
        · exact absurd (h.fresh y n hy) (Nat.lt_irrefl _)
        · exact (hjoined x hx hroot).trans (hjoined y hy hyroot).symm
      · intro hxy
        refine .inr ⟨?_, hxy.2.trans hroot, rfl⟩
        cases hy : numbers.lookup y with
        | none => rfl
        | some number =>
          have := h.closed y x (by simp [Marks.has, hy]) hxy.1
          simp [Marks.has, hx] at this
  fresh x n hx := by
    rw [h.lookup_search_iff hreverse hnew] at hx
    rcases hx with hx | ⟨-, -, rfl⟩
    · exact Nat.lt_succ_of_lt (h.fresh x n hx)
    · exact Nat.lt_succ_self n

/-- Once the nodes that are left have been taken in turn, every node has a number, and the nodes
with one number are those that are joined. -/
theorem numberComponents (hreverse : ∀ a b, reverse.HasLink a b ↔ adjacency.HasLink b a)
    {finished : List String} (hends : ∀ node ∈ adjacency.ends, node ∈ finished)
    (hlate : Late adjacency finished) (done rest : List String) (hsplit : finished = done ++ rest)
    (h : Numbering adjacency numbers next) (hdone : ∀ node ∈ done, numbers.has node = true) :
    (∃ last, Numbering adjacency
        (ControlFlow.numberComponents reverse numbers next rest) last) ∧
      ∀ node ∈ finished,
        (ControlFlow.numberComponents reverse numbers next rest).has node = true := by
  induction rest generalizing done numbers next with
  | nil =>
    rw [List.append_nil] at hsplit
    exact ⟨⟨next, h⟩, fun node hnode => hdone node (hsplit ▸ hnode)⟩
  | cons root rest ih =>
    have hnext : finished = (done ++ [root]) ++ rest := by simp [hsplit]
    unfold ControlFlow.numberComponents
    split
    next hmarked =>
      refine ih (done ++ [root]) hnext ?_ ?_
      · exact ⟨h.closed, h.same, fun x n hx => Nat.lt_succ_of_lt (h.fresh x n hx)⟩
      · intro node hnode
        rcases List.mem_append.1 hnode with hnode | hnode
        · exact hdone node hnode
        · exact List.mem_singleton.1 hnode ▸ hmarked
    next hnew =>
      have hnew : numbers.lookup root = none := Option.not_isSome_iff_eq_none.1 hnew
      -- What leads to the root is joined to it or to a node taken before, and then it has a number.
      have hjoined : ∀ x, numbers.lookup x = none → adjacency.Path x root →
          Joined adjacency x root := by
        intro x hx hpath
        have hmem : x ∈ finished := by
          rcases hpath.cases_head with rfl | ⟨target, hlink, -⟩
          · simp [hsplit]
          · exact hends x (Adjacency.mem_ends_of_hasLink hlink)
        obtain ⟨z, hz, hzx⟩ := hlate done root rest hsplit x hmem hpath
        rcases List.mem_append.1 hz with hz | hz
        · have := h.closed z x (hdone z hz) hzx.2
          simp [Marks.has, hx] at this
        · exact (List.mem_singleton.1 hz ▸ hzx).symm
      refine ih (done ++ [root]) hnext (h.search hreverse hnew hjoined) ?_
      intro node hnode
      rcases List.mem_append.1 hnode with hnode | hnode
      · refine has_search_of_has _ _ _ _ _ ((Marks.has_cons ..).2 (.inr (hdone node hnode)))
      · refine has_search_of_has _ _ _ _ _ ((Marks.has_cons ..).2 (.inl ?_))
        exact List.mem_singleton.1 hnode

end Numbering

/-- Every node at the end of a link has a component, and the nodes of one component are those that
are joined. -/
theorem components_spec {adjacency : Adjacency} (h : adjacency.Distinct) :
    (∀ node ∈ adjacency.ends, (components adjacency).has node = true) ∧
      ∀ x y n, (components adjacency).lookup x = some n →
        ((components adjacency).lookup y = some n ↔ Joined adjacency x y) := by
  obtain ⟨hends, -, hlate⟩ := finishingOrder_spec adjacency
  have hnone : Numbering adjacency [] 0 := by
    constructor <;> simp [Marks.has]
  obtain ⟨⟨last, hnumbering⟩, hall⟩ := hnone.numberComponents
    (Adjacency.hasLink_reversed h) hends hlate [] _ rfl (by simp)
  exact ⟨fun node hnode => hall node (hends node hnode), hnumbering.same⟩

/-! ## Edges on loops -/

/-- A control edge with a path of control edges, possibly empty, from its target back to its
source. -/
def OnLoop (edges : List Edge) (edge : Edge) : Prop :=
  edge.kind = .control ∧ Reaches edges edge.target.nodeId edge.source.nodeId

open scoped Classical in
/-- The edges found to lie on loops are those that do, in their order, whatever the order of the
entries of the adjacency. -/
theorem loopEdgesIn_eq_filter {adjacency : Adjacency} {edges : List Edge}
    (hperm : List.Perm adjacency (Adjacency.ofEdges edges)) :
    loopEdgesIn adjacency edges = edges.filter fun e => OnLoop edges e := by
  obtain ⟨hdistinct, hlinks⟩ := Adjacency.hasLink_perm hperm (Adjacency.ofLinks_spec _).1
  have hpaths : adjacency.Path = Reaches edges := by
    rw [← path_ofEdges]
    have : adjacency.HasLink = (Adjacency.ofEdges edges).HasLink := by
      funext a b
      exact propext (hlinks a b)
    rw [Adjacency.Path, this]
  obtain ⟨hall, hsame⟩ := components_spec hdistinct
  refine List.filter_congr fun e he => ?_
  by_cases hkind : e.kind = .control
  · have hlink : adjacency.HasLink e.source.nodeId e.target.nodeId :=
      (hlinks _ _).2 ((Adjacency.hasLink_ofEdges ..).2 (.of_mem he hkind))
    obtain ⟨n, hn⟩ := Option.isSome_iff_exists.1
      (hall _ (Adjacency.mem_ends_of_hasLink hlink))
    have hloop : Joined adjacency e.source.nodeId e.target.nodeId ↔ OnLoop edges e := by
      rw [Joined, OnLoop, hpaths]
      exact ⟨fun h => ⟨hkind, h.2⟩, fun h => ⟨.single (.of_mem he hkind), h.2⟩⟩
    simp only [hn, hkind, beq_self_eq_true, Bool.true_and]
    rw [Bool.eq_iff_iff, beq_iff_eq, hsame _ _ _ hn, hloop, decide_eq_true_iff]
  · simp [hkind, OnLoop]

open scoped Classical in
/-- The edges found to be on loops are those that lie on one, in the order of the edges. -/
theorem loopEdges_eq_filter (edges : List Edge) :
    loopEdges edges = edges.filter fun e => OnLoop edges e :=
  loopEdgesIn_eq_filter (List.Perm.refl _)

/-- An edge is found to be on a loop just if it is one of the edges and lies on a loop. -/
theorem mem_loopEdges_iff (edges : List Edge) (edge : Edge) :
    edge ∈ loopEdges edges ↔ edge ∈ edges ∧ OnLoop edges edge := by
  classical
  rw [loopEdges_eq_filter, List.mem_filter, decide_eq_true_iff]

/-- If every control edge leads to a node of higher rank, then no edge lies on a loop. -/
theorem loopEdges_eq_nil_of_rank {edges : List Edge} (rank : String → Nat)
    (hrank : ∀ e ∈ edges, e.kind = .control → rank e.source.nodeId < rank e.target.nodeId) :
    loopEdges edges = [] := by
  have hpath : ∀ a b, Reaches edges a b → rank a ≤ rank b := by
    intro a b h
    induction h with
    | refl => exact Nat.le_refl _
    | tail _ hflows ih =>
      obtain ⟨e, he, hkind, rfl, rfl⟩ := hflows
      exact Nat.le_trans ih (Nat.le_of_lt (hrank e he hkind))
  refine List.eq_nil_iff_forall_not_mem.2 fun e he => ?_
  obtain ⟨hmem, hkind, hback⟩ := (mem_loopEdges_iff edges e).1 he
  exact absurd (hrank e hmem hkind) (Nat.not_lt.2 (hpath _ _ hback))

/-- Only control edges make the flow. -/
theorem flows_filter_control (edges : List Edge) :
    Flows (edges.filter (·.kind == .control)) = Flows edges := by
  funext a b
  refine propext ⟨Flows.mono (List.filter_sublist.subset), ?_⟩
  rintro ⟨e, hmem, hkind, hsource, htarget⟩
  exact ⟨e, List.mem_filter.2 ⟨hmem, by simp [hkind]⟩, hkind, hsource, htarget⟩

/-- Which edges lie on a loop depends on the control edges alone. -/
theorem onLoop_filter_control (edges : List Edge) :
    OnLoop (edges.filter (·.kind == .control)) = OnLoop edges := by
  funext edge
  rw [OnLoop, OnLoop, Reaches, flows_filter_control]

open scoped Classical in
/-- The edges on loops are found among the control edges alone. -/
theorem filter_onLoop_filter_control (edges : List Edge) :
    (edges.filter (·.kind == .control)).filter
        (fun e => OnLoop (edges.filter (·.kind == .control)) e) =
      edges.filter fun e => OnLoop edges e := by
  rw [List.filter_filter, onLoop_filter_control]
  refine List.filter_congr fun e _ => ?_
  by_cases hloop : OnLoop edges e
  · simp [hloop, hloop.1]
  · simp [hloop]

open scoped Classical in
/-- The edges found to lie on loops are the control edges with a path of control edges, possibly
empty, from their targets back to their sources, in the order of the graph. This holds in whatever
order the entries of the adjacency are taken. Edges that carry values are not among them, and two
lists of edges with the same control edges have the same edges on loops. -/
theorem loopEdgesIn_follow_paths {adjacency : Adjacency} {edges : List Edge}
    (hperm : List.Perm adjacency (Adjacency.ofEdges edges)) :
    (loopEdgesIn adjacency edges = edges.filter fun e => OnLoop edges e) ∧
    (∀ e ∈ loopEdgesIn adjacency edges, e.kind = .control) ∧
    ∀ (others : List Edge) (otherAdjacency : Adjacency),
      List.Perm otherAdjacency (Adjacency.ofEdges others) →
      others.filter (·.kind == .control) = edges.filter (·.kind == .control) →
        loopEdgesIn otherAdjacency others = loopEdgesIn adjacency edges := by
  have hfilter := loopEdgesIn_eq_filter hperm
  refine ⟨hfilter, fun e he => ?_, fun others otherAdjacency hothers hcontrol => ?_⟩
  · rw [hfilter, List.mem_filter, decide_eq_true_iff] at he
    exact he.2.1
  · rw [hfilter, loopEdgesIn_eq_filter hothers, ← filter_onLoop_filter_control others, hcontrol,
      filter_onLoop_filter_control edges]

/-- Two loops, one of them of a single edge, with a control edge that leads from the first to the
second; the way back carries a value. -/
def twoLoops : List Edge := [
  .plain "there" .control ⟨"a", "out"⟩ ⟨"b", "in"⟩,
  .plain "value" .data ⟨"c", "value"⟩ ⟨"b", "value"⟩,
  .plain "back" .control ⟨"b", "out"⟩ ⟨"a", "in"⟩,
  .plain "across" .control ⟨"b", "out"⟩ ⟨"c", "in"⟩,
  .plain "around" .control ⟨"c", "out"⟩ ⟨"c", "in"⟩]

open scoped Classical in
/-- Three of the edges lie on a loop: those between two nodes and the one from a node to itself. -/
theorem filter_onLoop_twoLoops : (twoLoops.filter fun e => OnLoop twoLoops e).map (·.id) =
    ["there", "back", "around"] := by
  have hthere : OnLoop twoLoops twoLoops[0] :=
    ⟨rfl, .single ⟨twoLoops[2], by simp [twoLoops], rfl, rfl, rfl⟩⟩
  have hvalue : ¬OnLoop twoLoops twoLoops[1] := fun h => nomatch h.1
  have hback : OnLoop twoLoops twoLoops[2] :=
    ⟨rfl, .single ⟨twoLoops[0], by simp [twoLoops], rfl, rfl, rfl⟩⟩
  have hacross : ¬OnLoop twoLoops twoLoops[3] := by
    rintro ⟨-, hreaches⟩
    -- the only control edge that leaves the second loop's node comes back to it
    have hstays : ∀ node, Reaches twoLoops "c" node → node = "c" := by
      intro node h
      induction h with
      | refl => rfl
      | tail _ hflows ih =>
        obtain ⟨e, he, hkind, hsource, rfl⟩ := hflows
        rw [ih] at hsource
        revert hkind hsource
        revert e
        decide
    exact absurd (hstays _ hreaches) (by decide)
  have haround : OnLoop twoLoops twoLoops[4] := ⟨rfl, .refl⟩
  simp only [twoLoops, List.getElem_cons_zero, List.getElem_cons_succ] at *
  simp only [List.filter_cons, hthere, hvalue, hback, hacross, haround, decide_true, decide_false]
  rfl

open scoped Classical in
/-- The loops are found with the entries taken in reverse order, and without the value as well. -/
theorem loopEdgesIn_twoLoops :
    List.Perm (Adjacency.ofEdges twoLoops).reverse (Adjacency.ofEdges twoLoops) ∧
    (loopEdgesIn (Adjacency.ofEdges twoLoops).reverse twoLoops).map (·.id) =
      ["there", "back", "around"] ∧
    (loopEdgesIn (Adjacency.ofEdges twoLoops).reverse twoLoops =
      twoLoops.filter fun e => OnLoop twoLoops e) ∧
    loopEdges (twoLoops.filter (·.kind == .control)) =
      loopEdgesIn (Adjacency.ofEdges twoLoops).reverse twoLoops := by
  have hperm : List.Perm (Adjacency.ofEdges twoLoops).reverse (Adjacency.ofEdges twoLoops) :=
    List.reverse_perm _
  obtain ⟨hfilter, -, hsame⟩ := loopEdgesIn_follow_paths hperm
  refine ⟨hperm, ?_, hfilter, ?_⟩
  · rw [hfilter, filter_onLoop_twoLoops]
  · exact hsame _ _ (List.Perm.refl _) (by simp)

end ControlFlow

end AbilityGraph
