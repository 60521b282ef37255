import Mathlib.Data.List.Basic

/-! Words of a self-delimiting code that arrive in chunks, and receivers that take one at a time. -/

namespace Framing

variable {α β σ : Type*}

/-- No chunk completes two words, and what comes behind a word in its chunk is tolerated; the first
argument is how much of the first word is there already. -/
def Spaced (word : α → List β) (tolerated : α → Nat → Prop) : Nat → List α → List (List β) → Prop
  | _, _, [] => True
  | _, [], _ :: _ => True
  | held, a :: words, chunk :: chunks =>
    if held + chunk.length < (word a).length then
      Spaced word tolerated (held + chunk.length) (a :: words) chunks
    else
      let left := held + chunk.length - (word a).length
      (∀ b ∈ words.head?, left < (word b).length) ∧ tolerated a left ∧
        Spaced word tolerated left words chunks

/-- The beginning of a word, or nothing. -/
def Begun (word : α → List β) (good : α → Prop) (held : List β) : Prop :=
  held = [] ∨ ∃ b tail, good b ∧ tail ≠ [] ∧ held ++ tail = word b

section Buffer

variable {held socket word left : List β} {size : Nat}

/-- More comes when a word is completed. -/
theorem fresh_of_completes (short : held.length < word.length)
    (whole : held ++ socket = word ++ left) : socket ≠ [] := by
  rintro rfl
  have := congrArg List.length whole
  rw [List.append_nil, List.length_append] at this
  omega

/-- Some of it finds room in a buffer that holds a word. -/
theorem reads_fresh (fits : word.length ≤ size) (short : held.length < word.length)
    (whole : held ++ socket = word ++ left) : socket.take (size - held.length) ≠ [] := by
  rw [ne_eq, List.take_eq_nil_iff]
  rintro (full | none)
  · omega
  · exact fresh_of_completes short whole none

/-- A buffer that a word fits in is filled with the word and the beginning of what is behind it. -/
theorem reads_word (bounded : held.length ≤ size) (fits : word.length ≤ size)
    (whole : held ++ socket = word ++ left) :
    held ++ socket.take (size - held.length) = word ++ left.take (size - word.length) ∧
      socket.drop (size - held.length) = left.drop (size - word.length) := by
  constructor
  · have upTo := congrArg (List.take size) whole
    rwa [List.take_append, List.take_of_length_le bounded, List.take_append,
      List.take_of_length_le fits] at upTo
  · have behind := congrArg (List.drop size) whole
    rwa [List.drop_append, List.drop_eq_nil_of_le bounded, List.nil_append, List.drop_append,
      List.drop_eq_nil_of_le fits, List.nil_append] at behind

end Buffer

/-- A receiver that keeps the beginning of a word, and that takes a word as soon as it is complete,
takes all words of a code that arrive spaced. -/
theorem receives_spaced {word : α → List β} {good : α → Prop} {tolerated : α → Nat → Prop}
    {step : σ → List β → Option σ} {holds : List α → List β → σ → Prop}
    (waits : ∀ {s past held chunk}, holds past held s → Begun word good (held ++ chunk) →
      ∃ next, step s chunk = some next ∧ holds past (held ++ chunk) next)
    (takes : ∀ {s past held chunk a left}, holds past held s → good a →
      held.length < (word a).length → held ++ chunk = word a ++ left → Begun word good left →
      tolerated a left.length → ∃ next, step s chunk = some next ∧ holds (past ++ [a]) left next)
    {chunks : List (List β)} {past words : List α} {s : σ} {held : List β}
    (all : ∀ a ∈ words, good a) (begun : ∀ a ∈ words.head?, held.length < (word a).length)
    (keeps : holds past held s) (stream : held ++ chunks.flatten = (words.map word).flatten)
    (spaced : Spaced word tolerated held.length words chunks) :
    ∃ final, chunks.foldlM step s = some final ∧ holds (past ++ words) [] final := by
  induction chunks generalizing past words s held with
  | nil =>
    rw [List.flatten_nil, List.append_nil] at stream
    cases words with
    | nil =>
      rw [List.map_nil, List.flatten_nil] at stream
      exact ⟨s, rfl, by rwa [List.append_nil, ← stream]⟩
    | cons a words =>
      -- What is held is all there is, and it is less than a word.
      have short := begun a rfl
      rw [stream, List.map_cons, List.flatten_cons, List.length_append] at short
      omega
  | cons chunk chunks ih =>
    rw [List.flatten_cons, ← List.append_assoc] at stream
    rw [List.foldlM_cons]
    cases words with
    | nil =>
      obtain ⟨next, stepped, kept⟩ := waits keeps (.inl (List.append_eq_nil_iff.mp stream).1)
      obtain ⟨final, reached, taken⟩ := @ih past [] next (held ++ chunk) nofun nofun kept stream
        (by cases chunks <;> trivial)
      exact ⟨final, by rw [stepped]; exact reached, taken⟩
    | cons a words =>
      have fine := all a List.mem_cons_self
      rw [List.map_cons, List.flatten_cons] at stream
      unfold Spaced at spaced
      split at spaced
      · -- The word is still incomplete.
        rename_i short
        rw [← List.length_append] at short spaced
        obtain ⟨tail, whole⟩ : held ++ chunk <+: word a :=
          List.prefix_of_prefix_length_le ⟨_, stream⟩ ⟨_, rfl⟩ (Nat.le_of_lt short)
        have more : tail ≠ [] := by
          rintro rfl
          rw [← whole, List.append_nil] at short
          omega
        obtain ⟨next, stepped, kept⟩ := waits keeps (.inr ⟨a, tail, fine, more, whole⟩)
        obtain ⟨final, reached, taken⟩ := ih all (by rintro _ ⟨⟩; exact short) kept stream spaced
        exact ⟨final, by rw [stepped]; exact reached, taken⟩
      · -- The word is complete, and the next one is not.
        rename_i long
        obtain ⟨apart, fits, onward⟩ := spaced
        rw [← List.length_append] at long apart fits onward
        obtain ⟨left, whole⟩ : word a <+: held ++ chunk :=
          List.prefix_of_prefix_length_le ⟨_, rfl⟩ ⟨_, stream⟩ (Nat.le_of_not_lt long)
        have size : (held ++ chunk).length - (word a).length = left.length := by
          rw [← whole, List.length_append, Nat.add_sub_cancel_left]
        rw [size] at apart fits onward
        rw [← whole, List.append_assoc] at stream
        have behind := List.append_cancel_left stream
        have starts : Begun word good left := by
          cases words with
          | nil => exact .inl (List.append_eq_nil_iff.mp behind).1
          | cons b words =>
            have short := apart b rfl
            rw [List.map_cons, List.flatten_cons] at behind
            obtain ⟨tail, begins⟩ : left <+: word b :=
              List.prefix_of_prefix_length_le ⟨_, behind⟩ ⟨_, rfl⟩ (Nat.le_of_lt short)
            refine .inr ⟨b, tail, all b (by simp), ?_, begins⟩
            rintro rfl
            rw [← begins, List.append_nil] at short
            omega
        obtain ⟨next, stepped, kept⟩ := takes keeps fine (begun a rfl) whole.symm starts fits
        obtain ⟨final, reached, taken⟩ :=
          ih (fun b member => all b (by simp [member])) apart kept behind onward
        exact ⟨final, by rw [stepped]; exact reached, by rwa [List.append_assoc] at taken⟩

end Framing
