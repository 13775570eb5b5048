import Mathlib
import ShardCache.Concurrent.Relink
/-!
# Lists formed by link pairs

`Formed lists link seqs` says that the pairs of `link` thread the lists
`lists` through the slots `seqs`. This module gives what the relinking calls
need of it, as statements about `link` alone:

* `Formed.side_ne_locked`: no side of a formed arena reads `locked`.
* `Formed.locate`: a slot whose pair marks no end is a slot of one of the
  lists, between the two slots its pair names (`Formed.around`).
* `Formed.cutOut`: taking such a slot out between its neighbours leaves the
  lists formed, with the slot gone from its list.
* `Formed.spliceIn`: putting a slot from outside the lists right after a
  head sentinel leaves the lists formed, with the slot first in its list.
* `Formed.rewrite`: the pair of a slot outside the lists may be rewritten
  with any pair that marks an end and holds no side.
* `Formed.last_of_succ`: a slot followed by a tail sentinel is the last slot
  of that list.
-/
namespace ShardCache

namespace Link

@[simp] theorem side_pred (l : Link) : l.side .pred = l.pred := rfl

@[simp] theorem side_succ (l : Link) : l.side .succ = l.succ := rfl

@[simp] theorem withPred_pred (l : Link) (v : UInt32) : (l.withPred v).pred = v := rfl

@[simp] theorem withPred_succ (l : Link) (v : UInt32) : (l.withPred v).succ = l.succ := rfl

@[simp] theorem withSucc_pred (l : Link) (v : UInt32) : (l.withSucc v).pred = l.pred := rfl

@[simp] theorem withSucc_succ (l : Link) (v : UInt32) : (l.withSucc v).succ = v := rfl

@[simp] theorem detached_pred : detached.pred = listEnd := rfl

@[simp] theorem detached_succ : detached.succ = listEnd := rfl

@[simp] theorem held_pred : held.pred = locked := rfl

@[simp] theorem held_succ : held.succ = locked := rfl

theorem side_setSide (l : Link) (d d' : Side) (v : UInt32) :
    (l.setSide d v).side d' = if d' = d then v else l.side d' := by
  cases d <;> cases d' <;> rfl

@[simp] theorem setSide_self (l : Link) (d : Side) (v : UInt32) : (l.setSide d v).side d = v := by
  simp [side_setSide]

theorem eq_iff (l l' : Link) : l = l' ↔ l.pred = l'.pred ∧ l.succ = l'.succ := by
  cases l
  cases l'
  simp

theorem eq_of_side {l l' : Link} (h : ∀ d, l.side d = l'.side d) : l = l' :=
  (eq_iff l l').2 ⟨h .pred, h .succ⟩

theorem listEnd_ne_locked : listEnd ≠ locked := by decide

theorem touchesEnd_eq_false {l : Link} : l.touchesEnd = false ↔ l.pred ≠ listEnd ∧ l.succ ≠ listEnd := by
  simp [touchesEnd]

theorem hasLockedSide_eq_false {l : Link} :
    l.hasLockedSide = false ↔ l.pred ≠ locked ∧ l.succ ≠ locked := by
  simp [hasLockedSide]

theorem side_ne_locked {l : Link} (h : l.hasLockedSide = false) (d : Side) : l.side d ≠ locked := by
  rw [hasLockedSide_eq_false] at h
  cases d
  · exact h.1
  · exact h.2

@[simp] theorem touchesEnd_detached : detached.touchesEnd = true := rfl

@[simp] theorem hasLockedSide_detached : detached.hasLockedSide = false := rfl

end Link

namespace Relink

/-! ## Pairs changed at a few slots -/

/-- `link` with the pair of `y` replaced. -/
def setLink (link : UInt32 → Link) (y : UInt32) (w : Link) : UInt32 → Link :=
  fun z => if z = y then w else link z

@[simp] theorem setLink_self (link : UInt32 → Link) (y : UInt32) (w : Link) :
    setLink link y w y = w := by
  simp [setLink]

theorem setLink_of_ne (link : UInt32 → Link) {y z : UInt32} (w : Link) (h : z ≠ y) :
    setLink link y w z = link z := by
  simp [setLink, h]

@[simp] theorem link_store (a : Arena) (y : UInt32) (w : Link) :
    (a.store y w).link = setLink a.link y w := rfl

@[simp] theorem gen_store (a : Arena) (y : UInt32) (w : Link) : (a.store y w).gen = a.gen := rfl

@[simp] theorem link_renew (a : Arena) (x : UInt32) : (a.renew x).link = a.link := rfl

/-- `link` with slot `y` taken out from between the slots its pair names: the one before it
now leads to the one after it and back, and `y` is detached. -/
def cutOut (link : UInt32 → Link) (y : UInt32) : UInt32 → Link := fun z =>
  if z = y then Link.detached
  else if z = (link y).pred then (link z).withSucc (link y).succ
  else if z = (link y).succ then (link z).withPred (link y).pred
  else link z

/-- `link` with slot `x` put right after `h`, before the slot `h` led to. -/
def spliceIn (link : UInt32 → Link) (h x : UInt32) : UInt32 → Link := fun z =>
  if z = x then ⟨h, (link h).succ⟩
  else if z = h then (link z).withSucc x
  else if z = (link h).succ then (link z).withPred x
  else link z

/-! ## Chains of neighbours -/

section Chains

variable {link link' : UInt32 → Link}

/-- A chain reads the successors of all its slots but the last and the predecessors of all
but the first; pairs that agree there give the same chain. -/
theorem isChain_congr : ∀ {l : List UInt32}, l.IsChain (Adjacent link) →
    (∀ u ∈ l.dropLast, (link' u).succ = (link u).succ) →
    (∀ v ∈ l.tail, (link' v).pred = (link v).pred) → l.IsChain (Adjacent link')
  | [], _, _, _ => .nil
  | [_], _, _, _ => .singleton _
  | u :: v :: l, h, hs, hp => by
    rw [List.isChain_cons_cons] at h ⊢
    obtain ⟨⟨h1, h2⟩, h3⟩ := h
    refine ⟨⟨?_, ?_⟩, isChain_congr h3 ?_ ?_⟩
    · rw [hs u (by simp)]
      exact h1
    · rw [hp v (by simp)]
      exact h2
    · intro w hw
      exact hs w (by rw [List.dropLast_cons_cons]; exact List.mem_cons_of_mem _ hw)
    · intro w hw
      exact hp w (List.mem_cons_of_mem _ hw)

theorem succ_mem_of_chain : ∀ {l : List UInt32}, l.IsChain (Adjacent link) →
    ∀ u ∈ l.dropLast, (link u).succ ∈ l
  | [], _, _, hu => by simp at hu
  | [_], _, _, hu => by simp at hu
  | u :: v :: l, h, w, hw => by
    rw [List.isChain_cons_cons] at h
    rw [List.dropLast_cons_cons, List.mem_cons] at hw
    rcases hw with rfl | hw
    · rw [h.1.1]
      simp
    · exact List.mem_cons_of_mem _ (succ_mem_of_chain h.2 w hw)

theorem pred_mem_of_chain : ∀ {l : List UInt32}, l.IsChain (Adjacent link) →
    ∀ v ∈ l.tail, (link v).pred ∈ l
  | [], _, _, hv => by simp at hv
  | [_], _, _, hv => by simp at hv
  | u :: v :: l, h, w, hw => by
    rw [List.isChain_cons_cons] at h
    rw [List.tail_cons, List.mem_cons] at hw
    rcases hw with rfl | hw
    · rw [h.1.2]
      simp
    · exact List.mem_cons_of_mem _ (pred_mem_of_chain h.2 w hw)

end Chains

/-! ## The nodes of the lists -/

section Nodes

variable {lists : List Ends} {seqs : Ends → List UInt32}

@[simp] theorem mem_chain {e : Ends} {xs : List UInt32} {z : UInt32} :
    z ∈ e.chain xs ↔ z = e.head ∨ z ∈ xs ∨ z = e.tail := by
  simp [Ends.chain]

theorem mem_nodes {z : UInt32} :
    z ∈ nodes lists seqs ↔ ∃ e ∈ lists, z ∈ e.chain (seqs e) := by
  simp only [nodes, List.mem_flatMap]

theorem chain_subset_nodes {e : Ends} (he : e ∈ lists) : e.chain (seqs e) ⊆ nodes lists seqs :=
  fun _ hz => mem_nodes.2 ⟨e, he, hz⟩

theorem head_mem_nodes {e : Ends} (he : e ∈ lists) : e.head ∈ nodes lists seqs :=
  chain_subset_nodes he (by simp)

theorem seq_subset_nodes {e : Ends} (he : e ∈ lists) : seqs e ⊆ nodes lists seqs :=
  fun _ hz => chain_subset_nodes he (by simp [hz])

/-- The chains of two lists share no slot, and no slot twice within one. -/
theorem chain_nodup (hn : (nodes lists seqs).Nodup) {e : Ends} (he : e ∈ lists) :
    (e.chain (seqs e)).Nodup := by
  unfold nodes at hn
  rw [List.nodup_flatMap] at hn
  exact hn.1 e he

theorem lists_nodup (hn : (nodes lists seqs).Nodup) : lists.Nodup := by
  unfold nodes at hn
  rw [List.nodup_flatMap] at hn
  refine List.Pairwise.imp_of_mem ?_ hn.2
  intro e e' _ _ hd heq
  subst heq
  have hmem : e.head ∈ e.chain (seqs e) := by simp
  exact hd hmem hmem

theorem eq_of_mem_chain (hn : (nodes lists seqs).Nodup) {e e' : Ends} (he : e ∈ lists)
    (he' : e' ∈ lists) {z : UInt32} (hz : z ∈ e.chain (seqs e)) (hz' : z ∈ e'.chain (seqs e')) :
    e = e' := by
  by_contra hne
  unfold nodes at hn
  rw [List.nodup_flatMap] at hn
  have : Std.Symm (Function.onFun List.Disjoint fun e : Ends => e.chain (seqs e)) :=
    ⟨fun _ _ h => List.Disjoint.symm h⟩
  exact hn.2.forall he he' hne hz hz'

theorem chain_eq (e : Ends) (xs : List UInt32) : e.chain xs = e.head :: xs ++ [e.tail] := by
  simp [Ends.chain]

theorem nodes_cons (e : Ends) (rest : List Ends) :
    nodes (e :: rest) seqs = e.chain (seqs e) ++ nodes rest seqs := rfl

theorem mem_nodes_update {e : Ends} {s : List UInt32} {z : UInt32} :
    z ∈ nodes lists (Function.update seqs e s) ↔
      ∃ e' ∈ lists, z ∈ e'.chain (if e' = e then s else seqs e') := by
  simp only [mem_nodes, Function.update_apply]

/-- Changing the slots of one list changes no other list's chain. -/
theorem nodes_update_of_not_mem {e : Ends} (s : List UInt32) :
    ∀ {lists : List Ends}, e ∉ lists → nodes lists (Function.update seqs e s) = nodes lists seqs
  | [], _ => rfl
  | e' :: rest, he => by
    rw [List.mem_cons, not_or] at he
    rw [nodes_cons, nodes_cons, Function.update_of_ne (Ne.symm he.1),
      nodes_update_of_not_mem s he.2]

/-- Putting a slot in one list adds it to the nodes. -/
theorem nodes_update_cons_perm {e : Ends} (x : UInt32) :
    ∀ {lists : List Ends}, lists.Nodup → e ∈ lists →
      (nodes lists (Function.update seqs e (x :: seqs e))).Perm (x :: nodes lists seqs)
  | [], _, he => absurd he List.not_mem_nil
  | e' :: rest, hnd, he => by
    rw [List.nodup_cons] at hnd
    rw [nodes_cons, nodes_cons]
    by_cases h : e' = e
    · subst h
      rw [Function.update_self, nodes_update_of_not_mem _ hnd.1]
      simp only [Ends.chain, List.cons_append]
      exact List.Perm.swap x e'.head _
    · rw [Function.update_of_ne h]
      have he' : e ∈ rest := (List.mem_cons.1 he).resolve_left (Ne.symm h)
      exact ((nodes_update_cons_perm x hnd.2 he').append_left _).trans List.perm_middle

/-- Taking slots out of lists keeps the nodes a sublist. -/
theorem nodes_sublist {seqs' : Ends → List UInt32} (h : ∀ e, (seqs' e).Sublist (seqs e)) :
    ∀ lists : List Ends, (nodes lists seqs').Sublist (nodes lists seqs)
  | [] => List.Sublist.slnil
  | e :: rest => by
    rw [nodes_cons, nodes_cons]
    refine List.Sublist.append ?_ (nodes_sublist h rest)
    simp only [Ends.chain]
    exact ((h e).append_right _).cons_cons _

/-- Taking a slot out of its list takes it, and only it, out of the nodes. -/
theorem nodes_erase_sublist (e : Ends) (x : UInt32) :
    (nodes lists (Function.update seqs e ((seqs e).erase x))).Sublist (nodes lists seqs) := by
  refine nodes_sublist (fun e' => ?_) lists
  by_cases h : e' = e
  · subst h
    rw [Function.update_self]
    exact List.erase_sublist
  · rw [Function.update_of_ne h]

theorem mem_nodes_erase (hn : (nodes lists seqs).Nodup) {e : Ends} (he : e ∈ lists) {x : UInt32}
    (hx : x ∈ seqs e) (y : UInt32) :
    y ∈ nodes lists (Function.update seqs e ((seqs e).erase x)) ↔
      y ∈ nodes lists seqs ∧ y ≠ x := by
  have hnd := chain_nodup hn he
  rw [Ends.chain, List.nodup_cons, List.nodup_append] at hnd
  obtain ⟨hhead, hsnd, -, htail⟩ := hnd
  constructor
  · intro hy
    refine ⟨(nodes_erase_sublist e x).subset hy, ?_⟩
    · rintro rfl
      obtain ⟨e', he', hy'⟩ := mem_nodes_update.1 hy
      by_cases h : e' = e
      · subst h
        rw [if_pos rfl, mem_chain] at hy'
        rcases hy' with h1 | h1 | h1
        · exact hhead (h1 ▸ List.mem_append_left _ hx)
        · exact hsnd.not_mem_erase h1
        · exact htail _ hx _ (List.mem_singleton.2 rfl) h1
      · rw [if_neg h] at hy'
        exact h (eq_of_mem_chain hn he' he hy' (by simp [hx]))
  · rintro ⟨hy, hne⟩
    obtain ⟨e', he', hy'⟩ := mem_nodes.1 hy
    refine mem_nodes_update.2 ⟨e', he', ?_⟩
    by_cases h : e' = e
    · subst h
      rw [if_pos rfl]
      rw [mem_chain] at hy' ⊢
      rcases hy' with h1 | h1 | h1
      · exact .inl h1
      · exact .inr (.inl ((List.mem_erase_of_ne hne).2 h1))
      · exact .inr (.inr h1)
    · rw [if_neg h]
      exact hy'

/-- Putting `x` first in one list adds `x` to the nodes and nothing else. -/
theorem mem_nodes_cons (hn : (nodes lists seqs).Nodup) {e : Ends} (he : e ∈ lists) (x y : UInt32) :
    y ∈ nodes lists (Function.update seqs e (x :: seqs e)) ↔ y = x ∨ y ∈ nodes lists seqs :=
  (nodes_update_cons_perm x (lists_nodup hn) he).mem_iff.trans List.mem_cons

end Nodes

/-! ## Formed arenas -/

section Formed

variable {lists : List Ends} {link : UInt32 → Link} {seqs : Ends → List UInt32}

/-- Each side of a slot of a list names a slot of the lists or marks an end. -/
theorem Formed.side_mem (hf : Formed lists link seqs) {y : UInt32} (hy : y ∈ nodes lists seqs)
    (d : Side) : (link y).side d ∈ nodes lists seqs ∨ (link y).side d = listEnd := by
  obtain ⟨e, he, hye⟩ := mem_nodes.1 hy
  obtain ⟨hhead, htail, hch⟩ := hf.linked e he
  cases d with
  | pred =>
    by_cases h : y = e.head
    · subst h
      exact .inr hhead
    · left
      refine chain_subset_nodes he (pred_mem_of_chain hch y ?_)
      simp only [Ends.chain, List.tail_cons]
      rw [mem_chain] at hye
      rcases hye with h' | h' | h'
      · exact absurd h' h
      · exact List.mem_append_left _ h'
      · simp [h']
  | succ =>
    by_cases h : y = e.tail
    · subst h
      exact .inr htail
    · left
      refine chain_subset_nodes he (succ_mem_of_chain hch y ?_)
      rw [chain_eq, List.dropLast_concat]
      rw [mem_chain] at hye
      rcases hye with h' | h' | h'
      · simp [h']
      · exact List.mem_cons_of_mem _ h'
      · exact absurd h' h

/-- No side of a formed arena is held. -/
theorem Formed.side_ne_locked (hf : Formed lists link seqs) (y : UInt32) (d : Side) :
    (link y).side d ≠ locked := by
  by_cases hy : y ∈ nodes lists seqs
  · rcases hf.side_mem hy d with h | h
    · exact (hf.named _ h).2
    · rw [h]
      exact Link.listEnd_ne_locked
  · exact Link.side_ne_locked (hf.outside y hy).2 d

/-- The chain of a list through one of its slots `y`: `y` sits between the slots its pair
names. -/
theorem Formed.split (hf : Formed lists link seqs) {e : Ends} (he : e ∈ lists)
    {a b : List UInt32} {y : UInt32} (hs : seqs e = a ++ y :: b) :
    ∃ P Q, e.head :: a = P ++ [(link y).pred] ∧ b ++ [e.tail] = (link y).succ :: Q ∧
      e.chain (seqs e) = P ++ (link y).pred :: y :: (link y).succ :: Q := by
  obtain ⟨-, -, hch⟩ := hf.linked e he
  obtain ⟨P, L, hP⟩ : ∃ P L, e.head :: a = P ++ [L] := by
    simpa only [List.concat_eq_append] using
      (List.eq_nil_or_concat (e.head :: a)).resolve_left (List.cons_ne_nil _ _)
  obtain ⟨R, Q, hQ⟩ : ∃ R Q, b ++ [e.tail] = R :: Q := by
    cases b with
    | nil => exact ⟨e.tail, [], rfl⟩
    | cons r b => exact ⟨r, b ++ [e.tail], rfl⟩
  have hc : e.chain (seqs e) = P ++ L :: y :: R :: Q := by
    rw [chain_eq, hs, ← hQ]
    have : e.head :: (a ++ y :: b) ++ [e.tail] = (e.head :: a) ++ y :: (b ++ [e.tail]) := by simp
    rw [this, hP]
    simp
  rw [hc, List.isChain_append_cons_cons, List.isChain_cons_cons] at hch
  obtain ⟨-, ⟨-, hL⟩, ⟨hR, -⟩, -⟩ := hch
  rw [hL, hR]
  exact ⟨P, Q, hP, hQ, hc⟩

/-- A slot whose pair marks no end is a slot of the lists. -/
theorem Formed.mem_of_inner (hf : Formed lists link seqs) {y : UInt32}
    (hy : (link y).touchesEnd = false) : y ∈ nodes lists seqs := by
  by_contra h
  rw [(hf.outside y h).1] at hy
  cases hy

/-- A slot whose pair marks no end is a slot of one of the lists. -/
theorem Formed.locate (hf : Formed lists link seqs) {y : UInt32}
    (hy : (link y).touchesEnd = false) : ∃ e ∈ lists, ∃ a b, seqs e = a ++ y :: b := by
  obtain ⟨e, he, hye⟩ := mem_nodes.1 (hf.mem_of_inner hy)
  obtain ⟨hhead, htail, -⟩ := hf.linked e he
  rw [Link.touchesEnd_eq_false] at hy
  rw [mem_chain] at hye
  rcases hye with rfl | hye | rfl
  · exact absurd hhead hy.1
  · exact ⟨e, he, List.append_of_mem hye⟩
  · exact absurd htail hy.2

/-- The neighbours of a slot of a list lead back to it, are slots of the lists, and are
distinct from it and from each other. -/
theorem Formed.around (hf : Formed lists link seqs) {y : UInt32}
    (hy : (link y).touchesEnd = false) :
    (link (link y).pred).succ = y ∧ (link (link y).succ).pred = y ∧
      (link y).pred ∈ nodes lists seqs ∧ (link y).succ ∈ nodes lists seqs ∧
      y ∈ nodes lists seqs ∧ (link y).pred ≠ y ∧ (link y).succ ≠ y ∧
      (link y).pred ≠ (link y).succ := by
  obtain ⟨e, he, a, b, hs⟩ := hf.locate hy
  obtain ⟨P, Q, -, -, hc⟩ := hf.split he hs
  have hch := (hf.linked e he).2.2
  have hnd := chain_nodup hf.nodup he
  have hsub : e.chain (seqs e) ⊆ nodes lists seqs := chain_subset_nodes he
  rw [hc] at hch hnd hsub
  rw [List.isChain_append_cons_cons, List.isChain_cons_cons] at hch
  obtain ⟨-, ⟨hL, -⟩, ⟨-, hR⟩, -⟩ := hch
  rw [List.nodup_append] at hnd
  simp only [List.nodup_cons, List.mem_cons, not_or] at hnd
  obtain ⟨-, ⟨⟨hLy, hLR, -⟩, ⟨hyR, -⟩, -⟩, -⟩ := hnd
  refine ⟨hL, hR, hsub (by simp), hsub (by simp), hsub (by simp), hLy, Ne.symm hyR, hLR⟩

/-- A slot followed by the tail sentinel of a list is the last slot of that list. -/
theorem Formed.last_of_succ (hf : Formed lists link seqs) {y : UInt32}
    (hy : (link y).touchesEnd = false) {e : Ends} (he : e ∈ lists) (ht : (link y).succ = e.tail) :
    ∃ a, seqs e = a ++ [y] := by
  obtain ⟨e', he', a, b, hs⟩ := hf.locate hy
  obtain ⟨P, Q, -, hQ, hc⟩ := hf.split he' hs
  have hmem : (link y).succ ∈ e'.chain (seqs e') := by rw [hc]; simp
  rw [ht] at hmem
  obtain rfl := eq_of_mem_chain hf.nodup he he' (by simp) hmem
  cases b with
  | nil => exact ⟨a, hs⟩
  | cons r b =>
    exfalso
    rw [List.cons_append, List.cons.injEq, ht] at hQ
    have hnd := List.nodup_iff_count_le_one.1 (chain_nodup hf.nodup he) e.tail
    rw [chain_eq, hs, hQ.1] at hnd
    simp [List.count_cons, List.count_append] at hnd
    omega

/-- The list `e` keeps its ends and chain under pairs that agree on its slots. -/
theorem linked_congr {e : Ends} {xs : List UInt32} {link' : UInt32 → Link}
    (h : (link e.head).pred = listEnd ∧ (link e.tail).succ = listEnd ∧
      (e.chain xs).IsChain (Adjacent link))
    (heq : ∀ z ∈ e.chain xs, link' z = link z) :
    (link' e.head).pred = listEnd ∧ (link' e.tail).succ = listEnd ∧
      (e.chain xs).IsChain (Adjacent link') := by
  obtain ⟨h1, h2, h3⟩ := h
  refine ⟨?_, ?_, isChain_congr h3 ?_ ?_⟩
  · rw [heq e.head (by simp)]
    exact h1
  · rw [heq e.tail (by simp)]
    exact h2
  · intro u hu
    rw [heq u (List.dropLast_subset _ hu)]
  · intro v hv
    rw [heq v (List.tail_subset _ hv)]

/-- A slot outside the lists may be given any pair that marks an end and holds no side. -/
theorem Formed.rewrite (hf : Formed lists link seqs) {x : UInt32} (hx : x ∉ nodes lists seqs)
    {w : Link} (hwe : w.touchesEnd = true) (hwl : w.hasLockedSide = false) :
    Formed lists (setLink link x w) seqs := by
  refine ⟨fun e he => linked_congr (hf.linked e he) ?_, hf.nodup, hf.named, ?_⟩
  · intro z hz
    exact setLink_of_ne link w fun h => hx (h ▸ chain_subset_nodes he hz)
  · intro z hz
    by_cases h : z = x
    · subst h
      simpa using And.intro hwe hwl
    · rw [setLink_of_ne link w h]
      exact hf.outside z hz

section Cut

variable {y : UInt32}

theorem cutOut_self : cutOut link y y = Link.detached := by simp [cutOut]

theorem cutOut_of_ne {z : UInt32} (hy : z ≠ y) (hL : z ≠ (link y).pred) (hR : z ≠ (link y).succ) :
    cutOut link y z = link z := by
  simp [cutOut, hy, hL, hR]

theorem cutOut_pred {z : UInt32} (hy : z ≠ y) (hR : z ≠ (link y).succ) :
    (cutOut link y z).pred = (link z).pred := by
  unfold cutOut
  split_ifs <;> simp_all

theorem cutOut_succ {z : UInt32} (hy : z ≠ y) (hL : z ≠ (link y).pred) :
    (cutOut link y z).succ = (link z).succ := by
  unfold cutOut
  split_ifs <;> simp_all

theorem cutOut_left (hLy : (link y).pred ≠ y) : (cutOut link y (link y).pred).succ = (link y).succ := by
  simp [cutOut, hLy]

theorem cutOut_right (hRy : (link y).succ ≠ y) (hLR : (link y).pred ≠ (link y).succ) :
    (cutOut link y (link y).succ).pred = (link y).pred := by
  simp [cutOut, hRy, Ne.symm hLR]

/-- Cutting `y` out changes the sides of `y` and the two sides facing it only. -/
theorem cutOut_side {z : UInt32} {d : Side} (hzy : z ≠ y)
    (hL : (z, d) ≠ ((link y).pred, .succ)) (hR : (z, d) ≠ ((link y).succ, .pred)) :
    (cutOut link y z).side d = (link z).side d := by
  cases d
  · exact cutOut_pred hzy fun h => hR (by rw [h])
  · exact cutOut_succ hzy fun h => hL (by rw [h])

end Cut

/-- Taking a slot whose pair marks no end out from between its neighbours leaves the lists
formed, with the slot gone from its list. -/
theorem Formed.cutOut (hf : Formed lists link seqs) {y : UInt32}
    (hy : (link y).touchesEnd = false) :
    ∃ e ∈ lists, y ∈ seqs e ∧
      Formed lists (cutOut link y) (Function.update seqs e ((seqs e).erase y)) := by
  obtain ⟨e, he, a, b, hs⟩ := hf.locate hy
  obtain ⟨P, Q, hP, hQ, hc⟩ := hf.split he hs
  obtain ⟨-, -, hLn, hRn, -, hLy, hRy, hLR⟩ := hf.around hy
  have hnd := chain_nodup hf.nodup he
  have hnda : y ∉ a := by
    rw [chain_eq, hs] at hnd
    intro h
    have := List.nodup_iff_count_le_one.1 hnd y
    have hpos := List.count_pos_iff.2 h
    simp [List.count_cons, List.count_append] at this
    omega
  rw [hc] at hnd
  obtain ⟨-, hmid, hPd⟩ := List.nodup_append.1 hnd
  simp only [List.nodup_cons, List.mem_cons, not_or] at hmid
  obtain ⟨⟨-, -, hLQ⟩, ⟨-, hyQ⟩, hRQ, -⟩ := hmid
  have hPx : ∀ z ∈ P, z ≠ y ∧ z ≠ (link y).pred ∧ z ≠ (link y).succ :=
    fun z hz => ⟨hPd z hz y (by simp), hPd z hz _ (by simp), hPd z hz _ (by simp)⟩
  have hQx : ∀ z ∈ Q, z ≠ y ∧ z ≠ (link y).pred ∧ z ≠ (link y).succ :=
    fun z hz => ⟨fun h => hyQ (h ▸ hz), fun h => hLQ (h ▸ hz), fun h => hRQ (h ▸ hz)⟩
  have herase : (seqs e).erase y = a ++ b := by
    rw [hs, List.erase_append_right _ hnda, List.erase_cons_head]
  have hc' : e.chain (a ++ b) = P ++ (link y).pred :: (link y).succ :: Q := by
    have : e.chain (a ++ b) = (e.head :: a) ++ (b ++ [e.tail]) := by simp [Ends.chain]
    rw [this, hP, hQ]
    simp
  have hch := (hf.linked e he).2.2
  rw [hc, List.isChain_append_cons_cons, List.isChain_cons_cons] at hch
  obtain ⟨hchP, -, -, hchQ⟩ := hch
  have hye : y ∈ seqs e := by rw [hs]; simp
  have hsub : (nodes lists (Function.update seqs e ((seqs e).erase y))).Sublist
      (nodes lists seqs) := nodes_erase_sublist e y
  refine ⟨e, he, hye, ⟨?_, hsub.nodup hf.nodup, fun z hz => hf.named z (hsub.subset hz), ?_⟩⟩
  · intro e' he'
    by_cases h : e' = e
    · subst h
      rw [Function.update_self, herase, hc']
      have hhead : e'.head ∈ P ++ [(link y).pred] := by rw [← hP]; simp
      have htail : e'.tail ∈ (link y).succ :: Q := by rw [← hQ]; simp
      refine ⟨?_, ?_, ?_⟩
      · rw [cutOut_pred]
        · exact (hf.linked e' he').1
        · rcases List.mem_append.1 hhead with h | h
          · exact (hPx _ h).1
          · rw [List.mem_singleton.1 h]; exact hLy
        · rcases List.mem_append.1 hhead with h | h
          · exact (hPx _ h).2.2
          · rw [List.mem_singleton.1 h]; exact hLR
      · rw [cutOut_succ]
        · exact (hf.linked e' he').2.1
        · rcases List.mem_cons.1 htail with h | h
          · rw [h]; exact hRy
          · exact (hQx _ h).1
        · rcases List.mem_cons.1 htail with h | h
          · rw [h]; exact Ne.symm hLR
          · exact (hQx _ h).2.1
      · rw [List.isChain_append_cons_cons]
        refine ⟨isChain_congr hchP ?_ ?_, ⟨cutOut_left hLy, cutOut_right hRy hLR⟩,
          isChain_congr hchQ ?_ ?_⟩
        · intro u hu
          rw [List.dropLast_concat] at hu
          exact cutOut_succ (hPx u hu).1 (hPx u hu).2.1
        · intro v hv
          have hv' := List.tail_subset _ hv
          rcases List.mem_append.1 hv' with h | h
          · exact cutOut_pred (hPx v h).1 (hPx v h).2.2
          · rw [List.mem_singleton.1 h]
            exact cutOut_pred hLy hLR
        · intro u hu
          have hu' := List.dropLast_subset _ hu
          rcases List.mem_cons.1 hu' with h | h
          · rw [h]
            exact cutOut_succ hRy (Ne.symm hLR)
          · exact cutOut_succ (hQx u h).1 (hQx u h).2.1
        · intro v hv
          rw [List.tail_cons] at hv
          exact cutOut_pred (hQx v hv).1 (hQx v hv).2.2
    · rw [Function.update_of_ne h]
      refine linked_congr (hf.linked e' he') fun z hz => cutOut_of_ne ?_ ?_ ?_
      all_goals
        intro hzx
        subst hzx
        refine h (eq_of_mem_chain hf.nodup he' he hz ?_)
        rw [hc]
        simp
  · intro z hz
    by_cases hzy : z = y
    · subst hzy
      rw [cutOut_self]
      exact ⟨rfl, rfl⟩
    · have hzn : z ∉ nodes lists seqs :=
        fun hzn => hz ((mem_nodes_erase hf.nodup he hye z).2 ⟨hzn, hzy⟩)
      rw [cutOut_of_ne hzy (fun h => hzn (h ▸ hLn)) (fun h => hzn (h ▸ hRn))]
      exact hf.outside z hzn

section Splice

variable {h x : UInt32}

theorem spliceIn_self : spliceIn link h x x = ⟨h, (link h).succ⟩ := by simp [spliceIn]

theorem spliceIn_of_ne {z : UInt32} (hx : z ≠ x) (hh : z ≠ h) (hs : z ≠ (link h).succ) :
    spliceIn link h x z = link z := by
  simp [spliceIn, hx, hh, hs]

theorem spliceIn_pred {z : UInt32} (hx : z ≠ x) (hs : z ≠ (link h).succ) :
    (spliceIn link h x z).pred = (link z).pred := by
  unfold spliceIn
  split_ifs <;> simp_all

theorem spliceIn_succ {z : UInt32} (hx : z ≠ x) (hh : z ≠ h) :
    (spliceIn link h x z).succ = (link z).succ := by
  unfold spliceIn
  split_ifs <;> simp_all

theorem spliceIn_head (hx : h ≠ x) : (spliceIn link h x h).succ = x := by
  simp [spliceIn, hx]

theorem spliceIn_next (hx : (link h).succ ≠ x) (hh : (link h).succ ≠ h) :
    (spliceIn link h x (link h).succ).pred = x := by
  simp [spliceIn, hx, hh]

/-- Putting `x` after `h` changes, besides `x`, the two sides that come to face it only. -/
theorem spliceIn_side {z : UInt32} {d : Side} (hzx : z ≠ x)
    (hH : (z, d) ≠ (h, .succ)) (hF : (z, d) ≠ ((link h).succ, .pred)) :
    (spliceIn link h x z).side d = (link z).side d := by
  cases d
  · exact spliceIn_pred hzx fun e => hF (by rw [e])
  · exact spliceIn_succ hzx fun e => hH (by rw [e])

end Splice

/-- Putting a slot from outside the lists right after the head of a list leaves the lists
formed, with the slot first in that list. -/
theorem Formed.spliceIn (hf : Formed lists link seqs) {e : Ends} (he : e ∈ lists) {x : UInt32}
    (hx : x ∉ nodes lists seqs) (hxe : x ≠ listEnd) (hxl : x ≠ locked) :
    Formed lists (spliceIn link e.head x) (Function.update seqs e (x :: seqs e)) := by
  obtain ⟨hhead, htail, hch⟩ := hf.linked e he
  obtain ⟨F, Q, hFQ⟩ := List.exists_cons_of_ne_nil (List.concat_ne_nil e.tail (seqs e))
  have hc : e.chain (seqs e) = e.head :: F :: Q := by rw [Ends.chain, hFQ]
  rw [hc, List.isChain_cons_cons] at hch
  obtain ⟨⟨hHF, -⟩, hchQ⟩ := hch
  have hnd := chain_nodup hf.nodup he
  rw [hc, List.nodup_cons, List.nodup_cons, List.mem_cons, not_or] at hnd
  obtain ⟨⟨hHF', hHQ⟩, hFQn, -⟩ := hnd
  have hxc : ∀ z ∈ e.chain (seqs e), z ≠ x :=
    fun z hz hzx => hx (hzx ▸ chain_subset_nodes he hz)
  rw [hc] at hxc
  have hxH : e.head ≠ x := hxc e.head (by simp)
  have hxF : F ≠ x := hxc F (by simp)
  have hQx : ∀ z ∈ Q, z ≠ x ∧ z ≠ e.head ∧ z ≠ (link e.head).succ := fun z hz =>
    ⟨hxc z (by simp [hz]), fun h => hHQ (h ▸ hz), fun h => hFQn (hHF ▸ h ▸ hz)⟩
  have hperm : (nodes lists (Function.update seqs e (x :: seqs e))).Perm (x :: nodes lists seqs) :=
    nodes_update_cons_perm x (lists_nodup hf.nodup) he
  refine ⟨?_, hperm.nodup_iff.2 (List.nodup_cons.2 ⟨hx, hf.nodup⟩), ?_, ?_⟩
  · intro e' he'
    by_cases h : e' = e
    · subst h
      have hc' : e'.chain (x :: seqs e') = e'.head :: x :: F :: Q := by
        rw [Ends.chain, List.cons_append, hFQ]
      rw [Function.update_self, hc']
      have ht : e'.tail ∈ F :: Q := by rw [← hFQ]; simp
      refine ⟨?_, ?_, ?_⟩
      · rw [spliceIn_pred hxH (by rw [hHF]; exact hHF')]
        exact hhead
      · rw [spliceIn_succ]
        · exact htail
        · exact hxc _ (List.mem_cons_of_mem _ ht)
        · rcases List.mem_cons.1 ht with h | h
          · rw [h]; exact Ne.symm hHF'
          · exact (hQx _ h).2.1
      · rw [List.isChain_cons_cons, List.isChain_cons_cons]
        have hxF' : (Relink.spliceIn link e'.head x F).pred = x := by
          rw [← hHF]
          exact spliceIn_next (hHF ▸ hxF) (hHF ▸ Ne.symm hHF')
        refine ⟨⟨spliceIn_head hxH, by simp [spliceIn_self]⟩,
          ⟨by simp [spliceIn_self, hHF], hxF'⟩, isChain_congr hchQ ?_ ?_⟩
        · intro u hu
          rcases List.mem_cons.1 (List.dropLast_subset _ hu) with h | h
          · rw [h]
            exact spliceIn_succ hxF (Ne.symm hHF')
          · exact spliceIn_succ (hQx u h).1 (hQx u h).2.1
        · intro v hv
          rw [List.tail_cons] at hv
          exact spliceIn_pred (hQx v hv).1 (hQx v hv).2.2
    · rw [Function.update_of_ne h]
      refine linked_congr (hf.linked e' he') fun z hz => spliceIn_of_ne ?_ ?_ ?_
      · exact fun hzx => hx (hzx ▸ chain_subset_nodes he' hz)
      all_goals
        intro hzx
        subst hzx
        refine h (eq_of_mem_chain hf.nodup he' he hz ?_)
        rw [hc]
        simp [hHF]
  · intro z hz
    rcases List.mem_cons.1 (hperm.subset hz) with h | h
    · subst h
      exact ⟨hxe, hxl⟩
    · exact hf.named z h
  · intro z hz
    have hzx : z ≠ x := fun h => hz (hperm.symm.subset (h ▸ List.mem_cons_self))
    have hzn : z ∉ nodes lists seqs := fun h => hz (hperm.symm.subset (List.mem_cons_of_mem _ h))
    rw [spliceIn_of_ne hzx (fun h => hzn (h ▸ head_mem_nodes he))
      (fun h => hzn (h ▸ chain_subset_nodes he (by rw [hc, hHF]; simp)))]
    exact hf.outside z hzn

/-- A list's chain starts with its head sentinel and the slot the head leads to. -/
theorem Formed.head_next (hf : Formed lists link seqs) {e : Ends} (he : e ∈ lists) :
    ∃ Q, e.chain (seqs e) = e.head :: (link e.head).succ :: Q := by
  obtain ⟨-, -, hch⟩ := hf.linked e he
  obtain ⟨F, Q, hFQ⟩ := List.exists_cons_of_ne_nil (List.concat_ne_nil e.tail (seqs e))
  have hc : e.chain (seqs e) = e.head :: F :: Q := by rw [Ends.chain, hFQ]
  rw [hc, List.isChain_cons_cons] at hch
  exact ⟨Q, by rw [hc, hch.1.1]⟩

/-- The slot after a head sentinel is a slot of the lists (the tail sentinel, if none). -/
theorem Formed.head_succ_mem (hf : Formed lists link seqs) {e : Ends} (he : e ∈ lists) :
    (link e.head).succ ∈ nodes lists seqs := by
  obtain ⟨Q, hc⟩ := hf.head_next he
  exact chain_subset_nodes he (by rw [hc]; simp)

theorem Formed.head_succ_ne (hf : Formed lists link seqs) {e : Ends} (he : e ∈ lists) :
    (link e.head).succ ≠ e.head := by
  obtain ⟨Q, hc⟩ := hf.head_next he
  have hnd := chain_nodup hf.nodup he
  rw [hc, List.nodup_cons, List.mem_cons, not_or] at hnd
  exact Ne.symm hnd.1.1

/-- A slot of a list has a neighbour on either side: its pair marks no end. -/
theorem Formed.touchesEnd_of_mem (hf : Formed lists link seqs) {e : Ends} (he : e ∈ lists)
    {y : UInt32} (hy : y ∈ seqs e) : (link y).touchesEnd = false := by
  obtain ⟨a, b, hs⟩ := List.append_of_mem hy
  obtain ⟨P, Q, -, -, hc⟩ := hf.split he hs
  have hsub : e.chain (seqs e) ⊆ nodes lists seqs := chain_subset_nodes he
  rw [hc] at hsub
  exact Link.touchesEnd_eq_false.2 ⟨(hf.named _ (hsub (by simp))).1, (hf.named _ (hsub (by simp))).1⟩

/-- The tail sentinel of a list leads back to its last slot, or to its head sentinel when the
list is empty. -/
theorem Formed.tail_pred (hf : Formed lists link seqs) {e : Ends} (he : e ∈ lists) :
    (link e.tail).pred = ((seqs e).getLast?).getD e.head := by
  obtain ⟨-, -, hch⟩ := hf.linked e he
  rcases List.eq_nil_or_concat (seqs e) with hnil | ⟨init, v, hv⟩
  · rw [chain_eq, hnil] at hch
    rw [hnil]
    exact (List.isChain_pair.1 hch).2
  · rw [chain_eq, hv, List.concat_eq_append,
      show e.head :: (init ++ [v]) ++ [e.tail] = (e.head :: init) ++ v :: e.tail :: [] by simp,
      List.isChain_append_cons_cons] at hch
    rw [hv, List.concat_eq_append, List.getLast?_append_of_ne_nil _ (List.cons_ne_nil _ _)]
    exact hch.2.1.2

/-- A slot of a list that follows the head sentinel is the first slot of the list, and the
first slot follows the head sentinel. -/
theorem Formed.pred_eq_head_iff (hf : Formed lists link seqs) {e : Ends} (he : e ∈ lists)
    {y : UInt32} (hy : y ∈ seqs e) : (link y).pred = e.head ↔ (seqs e).head? = some y := by
  obtain ⟨a, b, hs⟩ := List.append_of_mem hy
  obtain ⟨P, Q, hP, -, -⟩ := hf.split he hs
  have hnd := chain_nodup hf.nodup he
  rw [chain_eq, List.cons_append, List.nodup_cons] at hnd
  rw [hs]
  cases a with
  | nil =>
    simp only [List.nil_append, List.head?_cons, iff_true]
    have := congrArg List.getLast? hP
    simp at this
    exact this.symm
  | cons z a =>
    simp only [List.cons_append, List.head?_cons, Option.some.injEq]
    -- the pair before `y` names the last slot before it, which is no head sentinel
    have hlast : (link y).pred ∈ z :: a := by
      have h1 : (z :: a).getLast? = some (link y).pred := by
        have := congrArg List.getLast? hP
        simpa using this
      exact List.mem_of_getLast? h1
    constructor
    · intro h
      exact absurd (List.mem_append_left _ (by rw [hs]; exact List.mem_append_left _ (h ▸ hlast)))
        hnd.1
    · intro h
      subst h
      have := hnd.2
      rw [hs] at this
      simp at this

end Formed

end Relink

end ShardCache
