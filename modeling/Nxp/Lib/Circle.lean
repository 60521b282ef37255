import Mathlib.Data.List.Chain
import Mathlib.Data.List.Nodup
import Mathlib.Logic.Relation

/-! Circular doubly linked lists: elements that point to their successors and predecessors. -/

namespace Circle

/-- Where each element points. -/
structure Links (α : Type) where
  next : α → Option α
  prev : α → Option α

variable {α : Type} {links links' : Links α} {items rest : List α} {x first last : α}

/-- Two elements point to each other. -/
def Links.Joins (links : Links α) (x y : α) : Prop := links.next x = some y ∧ links.prev y = some x

/-- Elements that are linked in a circle, from the first on. -/
structure Linked (links : Links α) (items : List α) : Prop where
  distinct : items.Nodup
  closed : (items ++ items.head?.toList).IsChain links.Joins

/-- Nothing is linked in a circle. -/
theorem Linked.nil (links : Links α) : Linked links [] := ⟨List.nodup_nil, .nil⟩

/-- An element that points to itself is a circle. -/
theorem Linked.singleton (next : links.next x = some x) (prev : links.prev x = some x) :
    Linked links [x] :=
  ⟨List.nodup_singleton x, List.isChain_pair.mpr ⟨next, prev⟩⟩

/-- Of two neighbours, the former is not the last and the latter is not the first. -/
theorem neighbours_inner {front back : List α} {x y : α} (distinct : items.Nodup)
    (split : items = front ++ x :: y :: back) :
    items.getLast? ≠ some x ∧ items.head? ≠ some y := by
  subst split
  obtain ⟨-, tail, apart⟩ := List.nodup_append.mp distinct
  constructor
  · intro last
    have member : x ∈ y :: back := by
      rw [List.getLast?_append, List.getLast?_cons_cons] at last
      cases found : (y :: back).getLast? with
      | none => simp at found
      | some z =>
        rw [found, Option.some_or] at last
        cases last
        exact List.mem_of_getLast? found
    exact (List.nodup_cons.mp tail).1 member
  · intro first
    cases front with
    | nil =>
      cases first
      exact (List.nodup_cons.mp tail).1 (by simp)
    | cons z front =>
      cases first
      exact apart y (by simp) y (by simp) rfl

/-- Where the links within a list are left alone, its neighbours still point to each other. -/
theorem joins_within (distinct : items.Nodup) (chain : items.IsChain links.Joins)
    (next : ∀ x ∈ items, items.getLast? ≠ some x → links'.next x = links.next x)
    (prev : ∀ x ∈ items, items.head? ≠ some x → links'.prev x = links.prev x) :
    items.IsChain links'.Joins := by
  rw [List.isChain_iff_forall_rel_of_append_cons_cons] at chain ⊢
  intro x y front back split
  obtain ⟨inner, later⟩ := neighbours_inner distinct split
  obtain ⟨forth, backward⟩ := chain split
  constructor
  · rw [next x (by simp [split]) inner]
    exact forth
  · rw [prev y (by simp [split]) later]
    exact backward

/-- The links within a list and one from its last element to its first make a circle. -/
theorem Linked.close (distinct : items.Nodup) (chain : items.IsChain links.Joins)
    (head : items.head? = some first) (tail : items.getLast? = some last)
    (joined : links.Joins last first) : Linked links items := by
  refine ⟨distinct, ?_⟩
  rw [head]
  refine chain.append (List.isChain_singleton first) fun x atEnd y atStart => ?_
  rw [tail] at atEnd
  cases atEnd
  cases atStart
  exact joined

namespace Linked

/-- The elements of a circle are linked in a row. -/
theorem row (linked : Linked links items) : items.IsChain links.Joins :=
  linked.closed.left_of_append

/-- The last element of a circle points to the first and back. -/
theorem joined (linked : Linked links items) (head : items.head? = some first)
    (tail : items.getLast? = some last) : links.Joins last first := by
  have closed := linked.closed
  rw [head] at closed
  exact (List.isChain_append.mp closed).2.2 last tail first rfl

/-- The circle can be entered at the second element. -/
theorem rotate (linked : Linked links (x :: rest)) :
    Linked links (rest ++ [x]) := by
  have distinct : (rest ++ [x]).Nodup := by
    rw [List.nodup_append_comm]
    exact linked.distinct
  have closed : (x :: (rest ++ [x])).IsChain links.Joins := linked.closed
  refine ⟨distinct, ?_⟩
  cases rest with
  | nil => exact closed
  | cons y rest =>
    have joined := List.isChain_cons_cons.mp closed
    refine List.IsChain.append joined.2 (List.isChain_singleton y) fun z atEnd w atStart => ?_
    rw [List.getLast?_append_cons, List.getLast?_singleton] at atEnd
    cases atEnd
    cases atStart
    exact joined.1

/-- The circle can be entered anywhere. -/
theorem rotates {front back : List α} (linked : Linked links (front ++ back)) :
    Linked links (back ++ front) := by
  induction front generalizing back with
  | nil => rwa [List.append_nil]
  | cons x front ih =>
    have turned : Linked links (front ++ (back ++ [x])) := by
      rw [← List.append_assoc]
      exact linked.rotate
    simpa using ih turned

/-- An element goes in between the last and the first. -/
theorem insert (linked : Linked links items) {new : α} (head : items.head? = some first)
    (tail : items.getLast? = some last) (absent : new ∉ items) (before : links'.Joins last new)
    (after : links'.Joins new first) (next : ∀ x ∈ items, x ≠ last → links'.next x = links.next x)
    (prev : ∀ x ∈ items, x ≠ first → links'.prev x = links.prev x) :
    Linked links' (items ++ [new]) := by
  have distinct : (items ++ [new]).Nodup := by
    rw [List.nodup_append_comm]
    exact List.nodup_cons.mpr ⟨absent, linked.distinct⟩
  have row : items.IsChain links'.Joins := by
    refine joins_within linked.distinct linked.row (fun x member inner => ?_) fun x member later => ?_
    · exact next x member fun same => inner (by rw [tail, same])
    · exact prev x member fun same => later (by rw [head, same])
  have start : (items ++ [new]).head? = some first := by
    rw [List.head?_append, head, Option.some_or]
  refine close distinct ?_ start (by simp) after
  refine row.append (List.isChain_singleton new) fun x atEnd y atStart => ?_
  rw [tail] at atEnd
  cases atEnd
  cases atStart
  exact before

/-- The first element is taken out, its neighbours being linked instead. -/
theorem remove (linked : Linked links (x :: rest))
    (head : rest.head? = some first) (tail : rest.getLast? = some last)
    (joined : links'.Joins last first) (next : ∀ y ∈ rest, y ≠ last → links'.next y = links.next y)
    (prev : ∀ y ∈ rest, y ≠ first → links'.prev y = links.prev y) : Linked links' rest := by
  have distinct := (List.nodup_cons.mp linked.distinct).2
  refine close distinct ?_ head tail joined
  have row : rest.IsChain links.Joins := linked.row.tail
  refine joins_within distinct row (fun y member inner => ?_) fun y member later => ?_
  · exact next y member fun same => inner (by rw [tail, same])
  · exact prev y member fun same => later (by rw [head, same])

/-- A circle whose links are left alone is still one. -/
theorem congr (linked : Linked links items) (next : ∀ x ∈ items, links'.next x = links.next x)
    (prev : ∀ x ∈ items, links'.prev x = links.prev x) : Linked links' items := by
  have row := joins_within linked.distinct linked.row (fun x member _ => next x member)
    fun x member _ => prev x member
  cases items with
  | nil => exact Linked.nil links'
  | cons first rest =>
    obtain ⟨last, tail⟩ : ∃ last, (first :: rest).getLast? = some last :=
      ⟨_, List.getLast?_eq_some_getLast (List.cons_ne_nil first rest)⟩
    obtain ⟨forth, back⟩ := linked.joined rfl tail
    refine close linked.distinct row rfl tail ⟨?_, ?_⟩
    · rw [next last (List.mem_of_getLast? tail)]
      exact forth
    · rw [prev first (by simp)]
      exact back

/-- The first element of a circle points to the one behind it, or to itself. -/
theorem next_first (linked : Linked links (x :: rest)) :
    links.next x = (rest ++ [x]).head? := by
  have closed : (x :: (rest ++ [x])).IsChain links.Joins := linked.closed
  cases rest with
  | nil => exact (List.isChain_pair.mp closed).1
  | cons y rest => exact (List.isChain_cons_cons.mp closed).1.1

/-- One element after the other, a circle is walked from its first element. -/
theorem reaches {x y : α} {rest : List α} (linked : Linked links (x :: rest))
    (member : y ∈ x :: rest) :
    Relation.ReflTransGen (fun x y => links.next x = some y) x y := by
  have row : (x :: rest).IsChain (fun x y => links.next x = some y) :=
    linked.row.imp fun _ _ joins => joins.1
  rcases List.mem_cons.mp member with same | later
  · rw [same]
  · exact row.cons_induction _ rest (fun _ _ step before => before.tail step) .refl y later

/-- Every element of a circle leads back to its first element. -/
theorem returns {x y : α} {rest : List α} (linked : Linked links (x :: rest))
    (member : y ∈ x :: rest) :
    Relation.ReflTransGen (fun x y => links.next x = some y) y x := by
  have closed : (x :: rest ++ [x]).IsChain (fun x y => links.next x = some y) :=
    List.IsChain.imp (fun _ _ joins => joins.1) linked.closed
  obtain ⟨front, back, split⟩ := List.append_of_mem member
  rw [split, List.append_assoc, List.cons_append] at closed
  exact (List.isChain_split.mp closed).2.cons_induction _ _
    (fun _ _ step before => before.tail step) .refl x (by simp)

end Linked

end Circle
