import Nxp.Core.CreditLaws
import Nxp.Core.StreamIds
import Nxp.Lib.Circle

/-! The streams in the ring are linked in a circle, and every act keeps them so. -/

namespace Nxp

variable {f : Stream → Stream} {first last x streamId : UInt64} {data : Bytes} {fin : Bool}
  {act : Act} {before after : Conn}

/-- Where the streams of a connection point in the ring. -/
def Conn.links (conn : Conn) : Circle.Links UInt64 where
  next id := (conn.stream id).bind (·.schedNext)
  prev id := (conn.stream id).bind (·.schedPrev)

/-- Whether there is a stream that says it is in the ring. -/
def Conn.isScheduled (conn : Conn) (id : UInt64) : Bool := (conn.stream id).any (·.scheduled)

/-- The ring of a connection holds exactly these streams, from the one that is next. -/
structure Conn.RingOf (conn : Conn) (items : List UInt64) : Prop where
  head : conn.schedHead = items.head?
  linked : Circle.Linked conn.links items
  members : ∀ id, id ∈ items ↔ conn.isScheduled id = true

/-- A stream is where it was in the ring. -/
def Stream.SamePlace (s s' : Stream) : Prop :=
  s'.schedNext = s.schedNext ∧ s'.schedPrev = s.schedPrev ∧ s'.scheduled = s.scheduled

/-- Whether a stream has data or its end to send. -/
def Stream.Pending (s : Stream) : Prop := ¬ (streamUnsent s = 0 ∧ !streamFinPending s)

instance (s : Stream) : Decidable s.Pending := inferInstanceAs (Decidable (¬ _))

/-- Links do not matter to what a stream has to send. -/
theorem Stream.Pending.linked {s s' : Stream} (same : s'.unlinked = s.unlinked) :
    s'.Pending ↔ s.Pending := by
  have send : s'.send = s.send := (congrArg Stream.send same :)
  unfold Stream.Pending streamUnsent streamFinPending
  rw [send]

/-- Where a stream is in the ring: the next one, the one before, and whether it is in it. -/
private abbrev Place := Option UInt64 × Option UInt64 × Bool

/-- The place of a stream. -/
private def Stream.place (s : Stream) : Place := (s.schedNext, s.schedPrev, s.scheduled)

/-- The place of every stream; a stream that is not there has none. -/
private def Conn.places (conn : Conn) (id : UInt64) : Place :=
  (conn.stream id).elim (none, none, false) Stream.place

section Updates

variable {conn : Conn} {id other : UInt64} {s : Stream}

/-- The ring is read off the places. -/
theorem Conn.links_places (conn : Conn) (id : UInt64) :
    conn.links.next id = (conn.places id).1 ∧ conn.links.prev id = (conn.places id).2.1 ∧
      conn.isScheduled id = (conn.places id).2.2 := by
  unfold Conn.places Conn.isScheduled
  simp only [Conn.links]
  cases conn.stream id <;> exact ⟨rfl, rfl, rfl⟩

/-- A stream that is there points where its fields say. -/
theorem Conn.links_found (found : conn.stream id = some s) :
    conn.links.next id = s.schedNext ∧ conn.links.prev id = s.schedPrev ∧
      conn.isScheduled id = s.scheduled := by
  simp only [Conn.links, Conn.isScheduled, found]
  exact ⟨rfl, rfl, rfl⟩

/-- A stream that is stored is in its own place, and every other one where it was. -/
theorem Conn.places_setStream :
    (conn.setStream id s).places = Function.update conn.places id s.place := by
  funext other
  rw [Function.update_apply]
  unfold Conn.places
  rw [Conn.stream_setStream]
  split <;> rfl

/-- A change of one stream does not remove any. -/
theorem Conn.stream_kept (there : (conn.stream other).isSome) :
    ((conn.modifyStream id f).stream other).isSome := by
  rw [Conn.stream_modifyStream]
  split
  · rename_i same
    rwa [Option.isSome_map, ← same]
  · exact there

/-- A stream that is there is in the place the change gives it. -/
theorem Conn.places_modifyStream (g : Place → Place)
    (there : (conn.stream id).isSome) (moves : ∀ s, (f s).place = g s.place) :
    (conn.modifyStream id f).places = Function.update conn.places id (g (conn.places id)) := by
  obtain ⟨s, found⟩ := Option.isSome_iff_exists.mp there
  have stored : conn.modifyStream id f = conn.setStream id (f s) := by
    unfold Conn.modifyStream
    rw [found]
  have place : conn.places id = s.place := by
    unfold Conn.places
    rw [found]
    rfl
  rw [stored, Conn.places_setStream, place, moves]

theorem Conn.schedHead_modifyStream (f : Stream → Stream) :
    (conn.modifyStream id f).schedHead = conn.schedHead := by
  unfold Conn.modifyStream
  split <;> rfl

/-- Where the ring is entered does not matter to a change of a stream. -/
theorem Conn.modifyStream_entered (moved : Prop) [Decidable moved] (head : Option UInt64)
    (f : Stream → Stream) :
    (if moved then { conn with schedHead := head } else conn).modifyStream id f =
      { conn.modifyStream id f with schedHead := if moved then head else conn.schedHead } := by
  unfold Conn.modifyStream Conn.stream
  by_cases here : moved
  · simp only [if_pos here]
    split <;> rfl
  · simp only [if_neg here]
    split <;> rfl

end Updates

namespace Conn.RingOf

variable {conn conn' : Conn} {items : List UInt64} {id : UInt64} {s s' : Stream}

section

variable (ring : conn.RingOf items)
include ring

/-- The ring depends on the places and where it is entered. -/
theorem congr (head : conn'.schedHead = conn.schedHead)
    (same : conn'.places = conn.places) : conn'.RingOf items := by
  have agree (id : UInt64) := conn'.links_places id
  simp only [same, ← (conn.links_places _).1, ← (conn.links_places _).2.1,
    ← (conn.links_places _).2.2] at agree
  refine ⟨head.trans ring.head, ring.linked.congr (fun id _ => (agree id).1) fun id _ =>
    (agree id).2.1, fun id => ?_⟩
  rw [(agree id).2.2]
  exact ring.members id

/-- The ring depends on the streams and where it is entered. -/
theorem of_streams (head : conn'.schedHead = conn.schedHead)
    (same : ∀ id, conn'.stream id = conn.stream id) : conn'.RingOf items := by
  refine ring.congr head (funext fun id => ?_)
  unfold Conn.places
  rw [same]

/-- A stream that is stored where it was leaves the ring as it is. -/
theorem stored (place : s'.place = conn.places id) :
    (conn.setStream id s').RingOf items := by
  refine ring.congr rfl ?_
  rw [Conn.places_setStream, place, Function.update_eq_self]

/-- A stream whose place is left alone may change in any other way. -/
theorem setStream (found : conn.stream id = some s)
    (place : s.SamePlace s') : (conn.setStream id s').RingOf items := by
  refine ring.stored ?_
  unfold Conn.places Stream.place
  rw [found, place.1, place.2.1, place.2.2]
  rfl

/-- A new stream is not in the ring. -/
theorem create (absent : conn.stream id = none)
    (place : s.schedNext = none ∧ s.schedPrev = none ∧ s.scheduled = false) :
    (conn.setStream id s).RingOf items := by
  refine ring.stored ?_
  unfold Conn.places Stream.place
  rw [absent, place.1, place.2.1, place.2.2]
  rfl

/-- A stream in the ring is there. -/
theorem found (member : id ∈ items) :
    ∃ s, conn.stream id = some s ∧ s.scheduled = true := by
  have scheduled := (ring.members id).mp member
  unfold Conn.isScheduled at scheduled
  rwa [Option.any_eq_true] at scheduled

/-- A stream that is there is in the ring when it says so. -/
theorem mem_iff (found : conn.stream id = some s) :
    id ∈ items ↔ s.scheduled = true := by
  rw [ring.members, (Conn.links_found found).2.2]

theorem there (member : id ∈ items) :
    (conn.stream id).isSome := by
  obtain ⟨s, found, -⟩ := ring.found member
  rw [found]
  rfl

end

/-- A stream that enters an empty ring is alone in it. -/
theorem schedAdd_first (ring : conn.RingOf []) (entered : conn'.schedHead = some id)
    (after : conn'.places = Function.update conn.places id (some id, some id, true)) :
    conn'.RingOf [id] := by
  have links (x : UInt64) := conn'.links_places x
  simp only [after, Function.update_apply] at links
  refine ⟨entered, Circle.Linked.singleton ?_ ?_, fun other => ?_⟩
  · rw [(links id).1, if_pos rfl]
  · rw [(links id).2.1, if_pos rfl]
  · rw [(links other).2.2]
    by_cases same : other = id
    · simp [same]
    · -- Nothing else was in the ring.
      rw [if_neg same, ← (conn.links_places other).2.2, ← ring.members]
      simp [same]

/-- A stream that is put in the ring goes behind the others. -/
theorem schedAdd_behind (ring : conn.RingOf items)
    (head : items.head? = some first) (tail : items.getLast? = some last) (absent : id ∉ items)
    (entered : conn'.schedHead = conn.schedHead) (after : conn'.places = fun x => (
      if x = last then some id else if x = id then some first else conn.links.next x,
      if x = first then some id else if x = id then some last else conn.links.prev x,
      if x = id then true else conn.isScheduled x)) : conn'.RingOf (items ++ [id]) := by
  have notFirst : id ≠ first := fun same => absent (same ▸ List.mem_of_head? head)
  have notLast : id ≠ last := fun same => absent (same ▸ List.mem_of_getLast? tail)
  have old {x : UInt64} (member : x ∈ items) : x ≠ id := fun same => absent (same ▸ member)
  have links (x : UInt64) := conn'.links_places x
  simp only [after] at links
  refine ⟨?_, ring.linked.insert head tail absent ⟨?_, ?_⟩ ⟨?_, ?_⟩ ?_ ?_, fun other => ?_⟩
  · rw [List.head?_append, head, Option.some_or, entered, ring.head, head]
  · rw [(links last).1, if_pos rfl]
  · rw [(links id).2.1, if_neg notFirst, if_pos rfl]
  · rw [(links id).1, if_neg notLast, if_pos rfl]
  · rw [(links first).2.1, if_pos rfl]
  · intro x member differs
    rw [(links x).1, if_neg differs, if_neg (old member)]
  · intro x member differs
    rw [(links x).2.1, if_neg differs, if_neg (old member)]
  · rw [(links other).2.2, List.mem_append, List.mem_singleton, ring.members]
    by_cases same : other = id
    · simp [same]
    · simp [same]

/-- A stream that is not in the ring goes behind the others when it is added. -/
theorem schedAdd (ring : conn.RingOf items) (found : conn.stream id = some s) :
    (Nxp.schedAdd conn id).RingOf (if id ∈ items then items else items ++ [id]) := by
  have scheduled := ring.mem_iff found
  unfold Nxp.schedAdd
  simp only [found]
  by_cases member : id ∈ items
  · rw [if_pos member, if_pos (scheduled.mp member)]
    exact ring
  · rw [if_neg member, if_neg fun there => member (scheduled.mpr there)]
    have there : (conn.stream id).isSome := by rw [found]; rfl
    cases items with
    | nil =>
      have empty : conn.schedHead = none := ring.head
      rw [empty]
      exact schedAdd_first ring rfl
        (Conn.places_modifyStream (fun _ => (some id, some id, true)) there fun _ => rfl)
    | cons first rest =>
      have entered : conn.schedHead = some first := ring.head
      obtain ⟨last, tail⟩ : ∃ last, (first :: rest).getLast? = some last :=
        ⟨_, List.getLast?_eq_some_getLast (List.cons_ne_nil first rest)⟩
      -- The first stream points back to the last one.
      have back : (conn.stream first).bind (·.schedPrev) = some last :=
        (ring.linked.joined rfl tail).2
      rw [entered]
      simp only [back, modifyLinked]
      refine schedAdd_behind ring rfl tail member (by simp only [Conn.schedHead_modifyStream]) ?_
      have firstThere := ring.there (List.mem_cons_self ..)
      have lastThere := ring.there (List.mem_of_getLast? tail)
      rw [Conn.places_modifyStream (fun p => (p.1, some id, p.2.2))
          (Conn.stream_kept (Conn.stream_kept firstThere)) fun _ => rfl,
        Conn.places_modifyStream (fun p => (some id, p.2)) (Conn.stream_kept lastThere) fun _ => rfl,
        Conn.places_modifyStream (fun _ => (some first, some last, true)) there fun _ => rfl]
      funext x
      simp only [Function.update_apply, (conn.links_places x).1, (conn.links_places x).2.1,
        (conn.links_places x).2.2]
      split_ifs <;> simp_all

/-- An empty ring has no next stream. -/
theorem schedNext_nil (ring : conn.RingOf []) : Nxp.schedNext conn = (none, conn) := by
  have empty : conn.schedHead = none := ring.head
  unfold Nxp.schedNext
  rw [empty]

/-- A stream that leaves a ring in which it is alone leaves it empty. -/
theorem schedRemove_only (ring : conn.RingOf [x]) (entered : conn'.schedHead = none)
    (after : conn'.places = Function.update conn.places x (none, none, false)) :
    conn'.RingOf [] := by
  refine ⟨entered, Circle.Linked.nil _, fun other => ?_⟩
  rw [(conn'.links_places other).2.2, after, Function.update_apply]
  by_cases same : other = x
  · simp [same]
  · -- No other stream was in the ring.
    rw [if_neg same, ← (conn.links_places other).2.2, ← ring.members]
    simp [same]

/-- A stream of a ring of several is gone once its neighbours point to each other. -/
theorem schedRemove_between {front back : List UInt64} (ring : conn.RingOf (front ++ x :: back))
    (head : (back ++ front).head? = some first) (tail : (back ++ front).getLast? = some last)
    (entered : conn'.schedHead = (front ++ back).head?) (after : conn'.places = fun y => (
      if y = x then none else if y = last then some first else conn.links.next y,
      if y = x then none else if y = first then some last else conn.links.prev y,
      if y = x then false else conn.isScheduled y)) : conn'.RingOf (front ++ back) := by
  -- The circle is entered at the stream to go, which is then the first.
  have turned : Circle.Linked conn.links (x :: (back ++ front)) := ring.linked.rotates
  have absent : x ∉ back ++ front := (List.nodup_cons.mp turned.distinct).1
  have different {y : UInt64} (member : y ∈ back ++ front) : y ≠ x :=
    fun same => absent (same ▸ member)
  have links (y : UInt64) := conn'.links_places y
  simp only [after] at links
  refine ⟨entered, (turned.remove head tail ⟨?_, ?_⟩ ?_ ?_).rotates, fun other => ?_⟩
  · rw [(links last).1, if_neg (different (List.mem_of_getLast? tail)), if_pos rfl]
  · rw [(links first).2.1, if_neg (different (List.mem_of_head? head)), if_pos rfl]
  · intro y member differs
    rw [(links y).1, if_neg (different member), if_neg differs]
  · intro y member differs
    rw [(links y).2.1, if_neg (different member), if_neg differs]
  · rw [(links other).2.2]
    by_cases same : other = x
    · rw [same, if_pos rfl]
      simpa [or_comm] using absent
    · rw [if_neg same, ← ring.members]
      simp [same]

/-- A stream leaves the ring, and the others stay in their order. -/
theorem schedRemove (ring : conn.RingOf items) (found : conn.stream id = some s) :
    (Nxp.schedRemove conn id).RingOf (items.erase id) := by
  have scheduled := ring.mem_iff found
  unfold Nxp.schedRemove
  simp only [found]
  by_cases member : id ∈ items
  · obtain ⟨front, back, rfl⟩ := List.append_of_mem member
    have turned : Circle.Linked conn.links (id :: (back ++ front)) := ring.linked.rotates
    have absent : id ∉ back ++ front := (List.nodup_cons.mp turned.distinct).1
    have before : id ∉ front := fun inside => absent (List.mem_append_right _ inside)
    obtain ⟨forth, behind, -⟩ := Conn.links_found found
    have there : (conn.stream id).isSome := by rw [found]; rfl
    have next : s.schedNext = (back ++ front ++ [id]).head? := forth.symm.trans turned.next_first
    rw [List.erase_append_right _ before, List.erase_cons_head]
    simp only [scheduled.mp member, Bool.not_true, Bool.false_eq_true, if_false]
    cases around : back ++ front with
    | nil =>
      obtain ⟨rfl, rfl⟩ := List.append_eq_nil_iff.mp around
      have itself : s.schedNext = some id := next
      rw [if_pos itself]
      exact schedRemove_only ring (Conn.schedHead_modifyStream _)
        (Conn.places_modifyStream (fun _ => (none, none, false)) there fun _ => rfl)
    | cons first rest =>
      rw [around] at next absent
      have differs : first ≠ id := fun same => absent (by simp [same])
      obtain ⟨last, tail⟩ : ∃ last, (first :: rest).getLast? = some last :=
        ⟨_, List.getLast?_eq_some_getLast (List.cons_ne_nil first rest)⟩
      have onward : s.schedNext = some first := next
      have backward : s.schedPrev = some last := by
        refine behind.symm.trans (turned.joined rfl ?_).2
        rw [around, List.getLast?_cons_cons]
        exact tail
      have inside {y : UInt64} (member : y ∈ back ++ front) : (conn.stream y).isSome :=
        ring.there (by simp only [List.mem_append, List.mem_cons] at member ⊢; tauto)
      have firstThere := inside (around ▸ List.mem_cons_self ..)
      have lastThere := inside (around ▸ List.mem_of_getLast? tail)
      rw [if_neg (by rw [onward]; exact fun same => differs (Option.some.inj same)), onward, backward]
      simp only [modifyLinked, Conn.modifyStream_entered, Conn.schedHead_modifyStream]
      refine schedRemove_between ring (by rw [around]; rfl) (by rw [around]; exact tail) ?_ ?_
      rotate_left
      · show (((conn.modifyStream _ _).modifyStream _ _).modifyStream _ _).places = _
        rw [Conn.places_modifyStream (fun _ => (none, none, false))
            (Conn.stream_kept (Conn.stream_kept there)) fun _ => rfl,
          Conn.places_modifyStream (fun p => (p.1, some last, p.2.2)) (Conn.stream_kept firstThere)
            fun _ => rfl,
          Conn.places_modifyStream (fun p => (some first, p.2)) lastThere fun _ => rfl]
        funext y
        simp only [Function.update_apply, (conn.links_places y).1, (conn.links_places y).2.1,
          (conn.links_places y).2.2]
        split_ifs <;> simp_all
      -- The ring is entered elsewhere only if it was entered at this stream.
      show (if conn.schedHead = some id then some first else conn.schedHead) = _
      rw [ring.head]
      cases front with
      | nil =>
        rw [List.append_nil] at around
        simp [around]
      | cons other front =>
        have apart : other ≠ id := fun same => before (by simp [same])
        simp [apart]
  · rw [List.erase_of_not_mem member, if_pos (by simpa using mt scheduled.mpr member)]
    exact ring

/-- The first stream of a ring is next; it goes to the end of the ring, or out of it when it has
nothing to send. -/
theorem schedNext_cons {rest : List UInt64} (ring : conn.RingOf (x :: rest)) :
    ∃ s, conn.stream x = some s ∧ (Nxp.schedNext conn).1 = some x ∧
      (Nxp.schedNext conn).2.RingOf (if s.Pending then rest ++ [x] else rest) := by
  obtain ⟨s, found, scheduled⟩ := ring.found (List.mem_cons_self ..)
  have entered : conn.schedHead = some x := ring.head
  obtain ⟨forth, back, -⟩ := Conn.links_found found
  have next : s.schedNext = (rest ++ [x]).head? := forth.symm.trans ring.linked.next_first
  -- The ring is entered one stream further on.
  have turned : ({ conn with schedHead := s.schedNext } : Conn).RingOf (rest ++ [x]) := by
    refine ⟨next, ring.linked.rotate, fun id => ?_⟩
    rw [List.mem_append, List.mem_singleton, or_comm, ← List.mem_cons]
    exact ring.members id
  refine ⟨s, found, ?_⟩
  unfold Nxp.schedNext
  simp only [entered, found]
  by_cases pending : s.Pending
  · rw [if_neg pending, if_pos pending]
    exact ⟨rfl, turned⟩
  · have idle : streamUnsent s = 0 ∧ !streamFinPending s := not_not.mp pending
    rw [if_pos idle, if_neg pending]
    have gone := turned.schedRemove found
    rw [List.erase_append_right _ (List.nodup_cons.mp ring.linked.distinct).1,
      List.erase_cons_head, List.append_nil] at gone
    exact ⟨rfl, gone⟩

end Conn.RingOf

/-- A stream that has something to send and is not in the ring. -/
def Conn.Stray (conn : Conn) (id : UInt64) : Prop :=
  ∃ s, conn.stream id = some s ∧ s.Pending ∧ s.scheduled = false

/-- What a stream sends decides whether it has something to send. -/
theorem Stream.Pending.of_send {s s' : Stream} (same : s'.send = s.send) (pending : s'.Pending) :
    s.Pending := by
  unfold Stream.Pending streamUnsent streamFinPending at pending ⊢
  rwa [same] at pending

/-- The ring of a connection stays a circle, and no stream leaves it that has something to send. -/
structure Ringed (before after : Conn) : Prop where
  ring : ∀ items, before.RingOf items → ∃ items', after.RingOf items'
  strays : ∀ items, before.RingOf items → ∀ id, after.Stray id → before.Stray id

namespace Ringed

variable {conn conn' : Conn} {id : UInt64} {s s' : Stream}

theorem refl (conn : Conn) : Ringed conn conn :=
    ⟨fun items ring => ⟨items, ring⟩, fun _ _ _ h => h⟩

theorem trans {first second third : Conn} (left : Ringed first second)
    (right : Ringed second third) : Ringed first third := by
  constructor
  · intro items ring
    obtain ⟨items', ring'⟩ := left.ring items ring
    exact right.ring items' ring'
  · intro items ring id stray
    obtain ⟨items', ring'⟩ := left.ring items ring
    exact left.strays items ring id (right.strays items' ring' id stray)

theorem same (head : conn'.schedHead = conn.schedHead)
    (streams : ∀ id, conn'.stream id = conn.stream id) : Ringed conn conn' := by
  refine ⟨fun items ring => ⟨items, ring.of_streams head streams⟩, fun _ _ id stray => ?_⟩
  unfold Conn.Stray at stray ⊢
  rwa [streams] at stray

/-- A stream that is stored strands none unless it is itself stranded by that. -/
theorem stray_stored {other : UInt64} (idle : s.Pending → s.scheduled = false → conn.Stray id)
    (stray : (conn.setStream id s).Stray other) : conn.Stray other := by
  obtain ⟨t, there, pending, out⟩ := stray
  rw [Conn.stream_setStream] at there
  split at there
  · rename_i same
    cases there
    exact same ▸ idle pending out
  · exact ⟨t, there, pending, out⟩

theorem setStream (found : conn.stream id = some s) (place : s.SamePlace s')
    (idle : (s'.Pending → s.Pending) ∨ s.scheduled = true) : Ringed conn (conn.setStream id s') := by
  refine ⟨fun items ring => ⟨items, ring.setStream found place⟩, fun _ _ _ =>
    stray_stored fun pending out => ?_⟩
  have before : s.scheduled = false := place.2.2.symm.trans out
  rcases idle with idle | inside
  · exact ⟨s, found, idle pending, before⟩
  · rw [inside] at before
    cases before

theorem create (absent : conn.stream id = none)
    (place : s.schedNext = none ∧ s.schedPrev = none ∧ s.scheduled = false)
    (idle : ¬ s.Pending) : Ringed conn (conn.setStream id s) :=
  ⟨fun items ring => ⟨items, ring.create absent place⟩, fun _ _ _ =>
    stray_stored fun pending _ => absurd pending idle⟩

theorem stray_before {items items' : List UInt64} (links : Relinks conn conn')
    (ring : conn.RingOf items) (ring' : conn'.RingOf items') (stray : conn'.Stray id) :
    conn.Stray id ∨ (id ∈ items ∧ id ∉ items' ∧ ∃ s, conn.stream id = some s ∧ s.Pending) := by
  obtain ⟨t, there, pending, out⟩ := stray
  have same := links.streams id
  rw [there, Option.map_some] at same
  obtain ⟨s, was, unlinked⟩ := Option.map_eq_some_iff.mp same.symm
  have before : s.Pending := (Stream.Pending.linked unlinked).mpr pending
  have outside : id ∉ items' := fun member => by
    rw [(ring'.mem_iff there).mp member] at out
    cases out
  by_cases member : id ∈ items
  · exact .inr ⟨member, outside, s, was, before⟩
  · refine .inl ⟨s, was, before, ?_⟩
    rw [ring.mem_iff was] at member
    exact Bool.eq_false_iff.mpr member

/-- The ring moves on. -/
theorem next (conn : Conn) : Ringed conn (schedNext conn).2 := by
  constructor
  · intro items ring
    cases items with
    | nil =>
      rw [ring.schedNext_nil]
      exact ⟨[], ring⟩
    | cons x rest =>
      obtain ⟨s, -, -, after⟩ := ring.schedNext_cons
      exact ⟨_, after⟩
  · intro items ring id stray
    cases items with
    | nil =>
      rw [ring.schedNext_nil] at stray
      exact stray
    | cons x rest =>
      obtain ⟨s, found, -, after⟩ := ring.schedNext_cons
      rcases stray_before (schedNext_relinks conn) ring after stray with old | ⟨was, gone, t, there,
        pending⟩
      · exact old
      · -- Only a stream with nothing to send is let go.
        split at gone
        · simp only [List.mem_append, List.mem_singleton, not_or] at gone
          rcases List.mem_cons.mp was with same | later
          · exact absurd same gone.2
          · exact absurd later gone.1
        · rename_i idle
          rcases List.mem_cons.mp was with same | later
          · rw [same, found] at there
            cases there
            exact absurd pending idle
          · exact absurd later gone

/-- A stream changes and is put in the ring. -/
theorem setStream_add (found : conn.stream id = some s) (place : s.SamePlace s') :
    Ringed conn (schedAdd (conn.setStream id s') id) := by
  have there : (conn.setStream id s').stream id = some s' := by
    rw [Conn.stream_setStream, if_pos rfl]
  constructor
  · intro items ring
    exact ⟨_, (ring.setStream found place).schedAdd there⟩
  · intro items ring other stray
    have middle := ring.setStream found place
    rcases stray_before (schedAdd_relinks _ id) middle (middle.schedAdd there) stray with
      old | ⟨was, gone, -⟩
    · obtain ⟨t, here, pending, out⟩ := old
      rw [Conn.stream_setStream] at here
      split at here
      · -- The stream itself is in the ring afterwards.
        rename_i same
        obtain ⟨u, after, -, still⟩ := stray
        rw [same] at after
        have inside := ((middle.schedAdd there).mem_iff after).mp (by split <;> simp [*])
        rw [inside] at still
        cases still
      · exact ⟨t, here, pending, out⟩
    · split at gone
      · exact absurd was gone
      · exact absurd (List.mem_append_left _ was) gone

end Ringed

/-- A write that only marks the end of a stream which is not in the ring. -/
def Strands (conn : Conn) (streamId : UInt64) (data : Bytes) (fin : Bool) : Prop :=
  conn.state = .established ∧ fin = true ∧
    ∃ s, conn.stream streamId = some s ∧ s.Writable ∧ s.scheduled = false ∧
      streamWriteCount s (UInt64.ofNat data.length) = 0

/-- What a write does to a connection. -/
inductive Wrote (conn : Conn) (streamId : UInt64) (data : Bytes) (fin : Bool) : Conn → Prop
  | refused : Wrote conn streamId data fin conn
  | set {s s' : Stream} (found : conn.stream streamId = some s) (place : s.SamePlace s')
      (kept : (s'.Pending → s.Pending) ∨ s.scheduled = true) :
      Wrote conn streamId data fin (conn.setStream streamId s')
  | queued {s s' : Stream} (found : conn.stream streamId = some s) (place : s.SamePlace s') :
      Wrote conn streamId data fin (schedAdd (conn.setStream streamId s') streamId)
  | stranded {s s' : Stream} (strands : Strands conn streamId data fin)
      (found : conn.stream streamId = some s) (place : s.SamePlace s')
      (marked : s'.send.fin = true ∧ s'.send.finSent = s.send.finSent) (unended : s.send.fin = false)
      (out : s.scheduled = false) : Wrote conn streamId data fin (conn.setStream streamId s')

/-- Every write does one of these. -/
theorem connStreamSend_wrote (conn : Conn) (streamId : UInt64) (data : Bytes) (fin : Bool) :
    Wrote conn streamId data fin (connStreamSend conn streamId data fin).2 := by
  unfold connStreamSend
  by_cases state : conn.state = .established
  · rw [if_neg (not_not.mpr state)]
    cases found : conn.stream streamId with
    | none => exact .refused
    | some s =>
      by_cases writable : s.Writable
      · simp only [streamWrite_accepted writable data fin]
        by_cases taken : streamWriteCount s (UInt64.ofNat data.length) > 0
        · rw [if_pos taken]
          exact .queued found ⟨rfl, rfl, rfl⟩
        · have zero : streamWriteCount s (UInt64.ofNat data.length) = 0 := by
            rw [gt_iff_lt, UInt64.lt_iff_toNat_lt] at taken
            exact UInt64.toNat_inj.mp (by simpa using taken)
          rw [if_neg taken]
          cases fin with
          | false =>
            -- Neither where the data ends nor whether it ends there is changed.
            refine .set found ⟨rfl, rfl, rfl⟩ (.inl fun pending => ?_)
            unfold Stream.Pending streamUnsent streamFinPending at pending ⊢
            simpa [zero, writable.2] using pending
          | true =>
            by_cases inside : s.scheduled = true
            · exact .set found ⟨rfl, rfl, rfl⟩ (.inr inside)
            · have out := Bool.eq_false_iff.mpr inside
              exact .stranded ⟨state, rfl, s, found, writable, out, zero⟩ found ⟨rfl, rfl, rfl⟩
                ⟨rfl, rfl⟩ writable.2 out
      · simp only [streamWrite_refused writable data fin]
        exact .set found ⟨rfl, rfl, rfl⟩ (.inl id)
  · rw [if_pos state]
    exact .refused

theorem Wrote.ring {conn next : Conn}
    {items : List UInt64} (wrote : Wrote conn streamId data fin next) (ring : conn.RingOf items) :
    ∃ items', next.RingOf items' := by
  cases wrote with
  | refused => exact ⟨items, ring⟩
  | set found place kept => exact ⟨items, ring.setStream found place⟩
  | queued found place => exact (Ringed.setStream_add found place).ring items ring
  | stranded strands found place marked unended out => exact ⟨items, ring.setStream found place⟩

/-- A write that does not strand its stream strands none. -/
theorem Wrote.ringed {conn next : Conn}
    (wrote : Wrote conn streamId data fin next) (safe : ¬ Strands conn streamId data fin) :
    Ringed conn next := by
  cases wrote with
  | refused => exact Ringed.refl conn
  | set found place kept => exact Ringed.setStream found place kept
  | queued found place => exact Ringed.setStream_add found place
  | stranded strands => exact absurd strands safe

/-- A turn of the stream loop keeps the ring a circle. -/
theorem Turned.ringed {space : Nat} {b b' : SendBuild} (turned : Turned space b b') :
    Ringed b.conn b'.conn := by
  have moved {turn : Option UInt64} {conn : Conn} (next : schedNext b.conn = (turn, conn)) :
      Ringed b.conn conn := by
    have step := Ringed.next b.conn
    rwa [next] at step
  cases turned with
  | relinked next => exact moved next
  | kept next found only =>
    refine (moved next).trans (Ringed.setStream found ?_ (.inl fun pending => ?_))
    · rw [only]
      exact ⟨rfl, rfl, rfl⟩
    · rw [only] at pending
      exact pending
  | @sent conn id limit s refreshed s' f bytes next found able only budget limited filled encoded =>
    refine (moved next).trans ?_
    have place : s.SamePlace (chargeStream s' f.length) := by
      unfold chargeStream Stream.SamePlace
      rw [streamFillFrame_only filled, only]
      exact ⟨rfl, rfl, rfl⟩
    -- The connection is charged first, which the ring does not notice.
    have charged : Ringed conn { conn with connFlow := flowOnSend conn.connFlow f.length } :=
      Ringed.same rfl fun _ => rfl
    refine charged.trans ?_
    unfold SendBuild.putStream
    simp only
    split
    · exact Ringed.setStream_add found place
    · rename_i idle
      refine Ringed.setStream found place (.inl fun pending => absurd pending ?_)
      rw [not_or, gt_iff_lt, UInt64.lt_iff_toNat_lt] at idle
      have sent : streamUnsent (chargeStream s' f.length) = 0 :=
        UInt64.toNat_inj.mp (by simpa using idle.1)
      exact not_not.mpr ⟨sent, by simpa using idle.2⟩

theorem streamCreate_idle (id : UInt64) (type : StreamType) (sendLimit recvLimit : UInt64) :
    ¬ (streamCreate id type sendLimit recvLimit).Pending :=
  not_not.mpr ⟨rfl, rfl⟩

/-- Data from the peer keeps the ring a circle. -/
theorem recvStreamFrame_ringed (env : Env) (conn : Conn) (f : FrameStream) :
    Ringed conn (recvStreamFrame env conn f).2 := by
  have place (s : Stream) : s.SamePlace (streamOnRecv s f).2 := by
    unfold Stream.SamePlace
    rw [streamOnRecv_only]
    exact ⟨rfl, rfl, rfl⟩
  have send (s : Stream) : (streamOnRecv s f).2.send = s.send := by rw [streamOnRecv_only]
  cases found : conn.stream f.streamId with
  | some s =>
    rw [recvStreamFrame_known found]
    exact Ringed.setStream found (place s) (.inl (Stream.Pending.of_send (send s)))
  | none =>
    -- A stream that arrives is new, and takes the frame at once.
    have head : (recvStreamFrame env conn f).2.schedHead = conn.schedHead := by
      rw [recvStreamFrame_only]
    by_cases there : f.streamId ∈ (recvStreamFrame env conn f).2.ids
    · have done : (Act.taken env f).does conn (recvStreamFrame env conn f).2 := rfl
      obtain ⟨s, made⟩ := Act.created done there (Conn.not_mem_ids.mpr found)
      obtain ⟨-, -, remote, memory, room, -⟩ := made
      obtain ⟨-, stored⟩ := recvStreamFrame_created found remote memory room
      generalize fresh : streamCreate f.streamId .reliable conn.initialMaxStreamData
        conn.initialMaxStreamData = new at stored
      have arrived : Ringed conn (conn.setStream f.streamId (streamOnRecv new f).2) := by
        refine Ringed.create found ?_ fun pending => ?_
        · obtain ⟨next, prev, out⟩ := place new
          rw [next, prev, out, ← fresh]
          exact ⟨rfl, rfl, rfl⟩
        · have idle := Stream.Pending.of_send (send new) pending
          rw [← fresh] at idle
          exact streamCreate_idle _ _ _ _ idle
      refine arrived.trans (Ringed.same head fun id => ?_)
      rw [Conn.stream_setStream]
      split
      · rename_i same
        rw [same]
        exact stored
      · rename_i differs
        exact recvStreamFrame_other env conn differs
    · refine Ringed.same head fun id => ?_
      by_cases same : id = f.streamId
      · rw [same, found]
        exact Conn.not_mem_ids.mp there
      · exact recvStreamFrame_other env conn same

theorem connOpenStream_ringed (env : Env) {conn : Conn} (numbered : conn.Numbered)
    (type : StreamType) (unidirectional : Bool) :
    Ringed conn (connOpenStream env conn type unidirectional).2 := by
  have counted (conn : Conn) : Ringed conn (countOpened conn unidirectional) := by
    unfold countOpened
    split <;> exact Ringed.same rfl fun _ => rfl
  unfold connOpenStream
  split
  · exact Ringed.refl conn
  · simp only
    split
    · exact Ringed.refl conn
    · refine Ringed.trans ?_ (counted _)
      unfold storeStream
      split
      · -- The identifier is new, because streams are numbered.
        have absent := Conn.not_mem_ids.mp (numbered.fresh type unidirectional)
        exact Ringed.create absent ⟨rfl, rfl, rfl⟩ (streamCreate_idle _ _ _ _)
      · exact Ringed.refl conn

/-- Every act keeps the ring a circle, and strands no stream unless it is a write that does. -/
theorem Act.ringed (numbered : before.Numbered)
    (done : act.does before after) (safe : ∀ streamId data fin, act = .written streamId data fin →
      ¬ Strands before streamId data fin) : Ringed before after := by
  cases act with
  | aside =>
    have streams : after.streams = before.streams := congrArg Carriage.streams done
    refine Ringed.same (congrArg Carriage.schedHead done) fun id => ?_
    unfold Conn.stream
    rw [streams]
  | granted maxData =>
    cases done
    exact Ringed.same rfl fun _ => rfl
  | advertised =>
    obtain ⟨-, rfl⟩ := done
    exact Ringed.same rfl fun _ => rfl
  | taken env f =>
    cases done
    exact recvStreamFrame_ringed env before f
  | raised streamId maxStreamData =>
    cases done
    unfold recvMaxStreamData
    cases found : before.stream streamId with
    | none => exact Ringed.refl before
    | some s =>
      simp only
      split
      · exact Ringed.setStream_add found ⟨rfl, rfl, rfl⟩
      · exact Ringed.setStream found ⟨rfl, rfl, rfl⟩ (.inl id)
  | acked rec =>
    cases done
    have same (s : Stream) (blocked : Bool) (pending : ({ streamOnAck s rec.offset rec.len rec.fin
        with blocked := blocked } : Stream).Pending) : s.Pending := by
      unfold Stream.Pending streamUnsent streamFinPending at pending ⊢
      simp only [streamOnAck_send] at pending
      exact pending
    have place (s : Stream) (blocked : Bool) : s.SamePlace { streamOnAck s rec.offset rec.len rec.fin
        with blocked := blocked } := by
      rw [streamOnAck_only]
      exact ⟨rfl, rfl, rfl⟩
    unfold ackRecord
    cases found : before.stream rec.streamId with
    | none => exact Ringed.refl before
    | some s =>
      simp only
      split
      · exact (Ringed.setStream found (place s false) (.inl (same s false))).trans
          (Ringed.same rfl fun _ => rfl)
      · exact Ringed.setStream found (place s _) (.inl (same s _))
  | lost rec =>
    cases done
    unfold lossRecord
    cases found : before.stream rec.streamId with
    | none => exact Ringed.refl before
    | some s =>
      refine Ringed.setStream_add found ?_
      rw [streamOnLoss_send]
      exact ⟨rfl, rfl, rfl⟩
  | turned space b b' =>
    obtain ⟨rfl, rfl, turned⟩ := done
    exact turned.ringed
  | asked =>
    cases done
    exact Ringed.next before
  | opened env type unidirectional =>
    cases done
    exact connOpenStream_ringed env numbered type unidirectional
  | written streamId data fin =>
    cases done
    exact (connStreamSend_wrote before streamId data fin).ringed (safe streamId data fin rfl)
  | read streamId bufLen =>
    cases done
    unfold connStreamRecv
    cases found : before.stream streamId with
    | none => exact Ringed.refl before
    | some s =>
      refine Ringed.setStream found ?_ (.inl (Stream.Pending.of_send ?_))
      · rw [streamRead_only]
        exact ⟨rfl, rfl, rfl⟩
      · rw [streamRead_only]
  | retuned streamId s s' =>
    obtain ⟨found, rfl, only⟩ := done
    refine Ringed.setStream found ?_ (.inl (Stream.Pending.of_send ?_))
    · rw [only]
      exact ⟨rfl, rfl, rfl⟩
    · rw [only]

/-- Every act keeps the ring a circle. -/
theorem Act.ring {items : List UInt64}
    (numbered : before.Numbered) (done : act.does before after) (ring : before.RingOf items) :
    ∃ items', after.RingOf items' := by
  cases act with
  | written streamId data fin =>
    cases done
    exact (connStreamSend_wrote before streamId data fin).ring ring
  | _ => exact (Act.ringed numbered done (by simp)).ring items ring

/-- The ring of a new connection is empty. -/
theorem connCreate_ring (config : ConnConfig) (isServer allocCc : Bool) :
    (connCreate config isServer allocCc).RingOf [] :=
  ⟨rfl, Circle.Linked.nil _, fun _ => by simp [Conn.isScheduled, Conn.stream, connCreate]⟩

end Nxp
