import Mathlib

/-!
# Stream transformers that buffer

A transformer is fed its input in pieces and gives out its output in pieces that need not match
them: what is out after `n` bytes of input is a fixed prefix of the whole output, and the rest
comes when the transformer is finalized.
-/
namespace BlockStream

variable {σ β : Type}

/-- The calls of a transformer with contexts in `σ`. -/
structure Transformer (σ β : Type) where
  update : σ → List β → Option (σ × List β)
  /-- The new context, whether the call succeeded, and the bytes it says it has written. -/
  finalize : σ → σ × Bool × List β

namespace Transformer

variable (t : Transformer σ β)

def feed : σ → List (List β) → Option (σ × List β)
  | s, [] => some (s, [])
  | s, input :: inputs => do
      let (s, first) ← t.update s input
      let (s, rest) ← feed s inputs
      return (s, first ++ rest)

@[simp] theorem feed_nil (s : σ) : t.feed s [] = some (s, []) := rfl

/-- Feeding goes on where it stopped. -/
theorem update_of_feed {s s' s'' : σ} {inputs : List (List β)} {input out all : List β}
    (fed : t.feed s inputs = some (s', out)) (whole : t.feed s (inputs ++ [input]) = some (s'', all)) :
    ∃ more, t.update s' input = some (s'', more) ∧ all = out ++ more := by
  induction inputs generalizing s out all with
  | nil =>
      obtain ⟨rfl, rfl⟩ := Prod.mk.inj (Option.some_inj.mp fed)
      simp only [List.nil_append, feed, Option.bind_eq_bind, Option.bind_eq_some_iff, Option.pure_def,
        Option.some.injEq, Prod.mk.injEq, Prod.exists] at whole
      obtain ⟨_, more, updated, _, _, ⟨rfl, rfl⟩, rfl, rfl⟩ := whole
      exact ⟨more, updated, by simp⟩
  | cons head tail ih =>
      simp only [feed, List.cons_append, Option.bind_eq_bind, Option.bind_eq_some_iff,
        Option.pure_def, Option.some.injEq, Prod.mk.injEq, Prod.exists] at fed whole
      obtain ⟨s₁, first, updated, s₂, rest, fedTail, rfl, rfl⟩ := fed
      obtain ⟨s₃, first', updated', s₄, rest', fedWhole, rfl, rfl⟩ := whole
      obtain ⟨rfl, rfl⟩ := Prod.mk.inj (Option.some_inj.mp (updated.symm.trans updated'))
      obtain ⟨more, updatedLast, rfl⟩ := ih fedTail fedWhole
      exact ⟨more, updatedLast, (List.append_assoc ..).symm⟩

end Transformer

/-- Fed with `input` in any pieces, the transformer turns it into `output`: `emitted n` bytes are
out after `n` bytes of input, and finalizing gives the rest. -/
structure Streams (t : Transformer σ β) (start : σ) (emitted : ℕ → ℕ) (input output : List β) :
    Prop where
  during : ∀ pieces, pieces.flatten <+: input →
    ∃ s, t.feed start pieces = some (s, output.take (emitted pieces.flatten.length))
  atEnd : ∀ pieces s out, pieces.flatten = input → t.feed start pieces = some (s, out) →
    ∃ s', t.finalize s = (s', true, output.drop (emitted input.length))
  mono : Monotone emitted
  within : emitted input.length ≤ output.length

/-- The context is one after the first `n` bytes of the input. -/
def Reached (t : Transformer σ β) (start : σ) (input : List β) (n : ℕ) (s : σ) : Prop :=
  n ≤ input.length ∧ ∃ pieces out, pieces.flatten = input.take n ∧ t.feed start pieces = some (s, out)

/-- The bytes of a stream between two positions. -/
def slice (stream : List β) (a b : ℕ) : List β := (stream.take b).drop a

theorem slice_length {stream : List β} {a b : ℕ} (inside : b ≤ stream.length) :
    (slice stream a b).length = b - a := by
  rw [slice, List.length_drop, List.length_take, min_eq_left inside]

theorem take_append_slice (stream : List β) {a b : ℕ} (le : a ≤ b) :
    stream.take a ++ slice stream a b = stream.take b := by
  have first : (stream.take b).take a = stream.take a := by rw [List.take_take, min_eq_left le]
  rw [slice, ← first]
  exact List.take_append_drop a _

theorem slice_append_drop (stream : List β) {a b : ℕ} (le : a ≤ b) :
    slice stream a b ++ stream.drop b = stream.drop a := by
  rcases le_total b stream.length with inside | short
  · have split := congrArg (List.drop a) (List.take_append_drop b stream)
    rwa [List.drop_append_of_le_length (by rw [List.length_take]; omega)] at split
  · rw [slice, List.take_of_length_le short, List.drop_of_length_le short, List.append_nil]

theorem slice_append_slice (stream : List β) {a b c : ℕ} (ab : a ≤ b) (bc : b ≤ c) :
    slice stream a b ++ slice stream b c = slice stream a c := by
  have first : slice stream a b = slice (stream.take c) a b := by
    rw [slice, slice, List.take_take, min_eq_left bc]
  rw [first]
  exact slice_append_drop (stream.take c) ab

variable {t : Transformer σ β} {start s : σ} {emitted : ℕ → ℕ} {input output : List β} {n : ℕ}

theorem reached_start (t : Transformer σ β) (start : σ) (input : List β) :
    Reached t start input 0 start :=
  ⟨Nat.zero_le _, [], [], by simp, rfl⟩

namespace Streams

theorem emitted_le (streams : Streams t start emitted input output) (inside : n ≤ input.length) :
    emitted n ≤ output.length :=
  (streams.mono inside).trans streams.within

theorem emitted_zero (streams : Streams t start emitted input output) : emitted 0 = 0 := by
  obtain ⟨s, fed⟩ := streams.during [] List.nil_prefix
  have none := (Prod.mk.inj (Option.some_inj.mp fed)).2
  have short := congrArg List.length none
  rw [List.length_nil, List.flatten_nil, List.length_nil, List.length_take,
    min_eq_left (streams.emitted_le (Nat.zero_le _))] at short
  exact short.symm

/-- The next piece of the input puts out what is due between the two positions. -/
theorem update (streams : Streams t start emitted input output)
    (reached : Reached t start input n s) {piece : List β} (next : piece <+: input.drop n) :
    ∃ s', t.update s piece = some (s', slice output (emitted n) (emitted (n + piece.length))) ∧
      Reached t start input (n + piece.length) s' := by
  obtain ⟨inside, pieces, out, flat, fed⟩ := reached
  have flatLength : pieces.flatten.length = n := by
    rw [flat, List.length_take, min_eq_left inside]
  have fits : n + piece.length ≤ input.length := by
    have := next.length_le
    rw [List.length_drop] at this
    omega
  have flatNext : (pieces ++ [piece]).flatten = input.take (n + piece.length) := by
    rw [List.flatten_append, List.flatten_singleton, flat, List.prefix_iff_eq_take.mp next,
      List.take_add]
    congr 2
    rw [List.length_take, List.length_drop, min_eq_left (by omega)]
  have lengthNext : (pieces ++ [piece]).flatten.length = n + piece.length := by
    rw [flatNext, List.length_take, min_eq_left fits]
  obtain ⟨_, fed'⟩ := streams.during pieces (flat ▸ List.take_prefix _ _)
  obtain ⟨rfl, rfl⟩ := Prod.mk.inj (Option.some_inj.mp (fed.symm.trans fed'))
  obtain ⟨s', fedNext⟩ := streams.during (pieces ++ [piece]) (flatNext ▸ List.take_prefix _ _)
  obtain ⟨more, updated, split⟩ := t.update_of_feed fed fedNext
  rw [flatLength, lengthNext, ← take_append_slice output (streams.mono (Nat.le_add_right n _))] at split
  exact ⟨s', by rw [updated, List.append_cancel_left split], fits, _, _, flatNext, fedNext⟩

theorem finalize (streams : Streams t start emitted input output)
    (reached : Reached t start input input.length s) :
    ∃ s', t.finalize s = (s', true, output.drop (emitted input.length)) := by
  obtain ⟨-, pieces, out, flat, fed⟩ := reached
  exact streams.atEnd pieces s out (flat.trans List.take_length) fed

end Streams

/-- A transformer that keeps its input: it puts out what `raw` makes of the input so far, and at
the end the rest of what `whole` makes of all the input. -/
def ofTotal (raw whole : List β → List β) (emitted : ℕ → ℕ) : Transformer (List β) β where
  update s piece :=
    some (s ++ piece, slice (raw (s ++ piece)) (emitted s.length) (emitted (s ++ piece).length))
  finalize s := (s, true, (whole s).drop (emitted s.length))

section OfTotal

variable {raw whole : List β → List β}
  (causal : ∀ {seen : List β}, seen <+: input →
    (raw seen).take (emitted seen.length) = (whole input).take (emitted seen.length))
  (mono : Monotone emitted)
include causal mono

theorem ofTotal_feed (seen : List β) (pieces : List (List β))
    (seenPrefix : seen ++ pieces.flatten <+: input) :
    (ofTotal raw whole emitted).feed seen pieces = some (seen ++ pieces.flatten,
      slice (whole input) (emitted seen.length) (emitted (seen ++ pieces.flatten).length)) := by
  induction pieces generalizing seen with
  | nil =>
      have none : slice (whole input) (emitted seen.length) (emitted seen.length) = [] :=
        List.drop_eq_nil_of_le (List.length_take_le _ _)
      simp [none]
  | cons piece rest ih =>
      rw [List.flatten_cons, ← List.append_assoc] at seenPrefix ⊢
      have here : seen ++ piece <+: input := (List.prefix_append _ _).trans seenPrefix
      have first : slice (raw (seen ++ piece)) (emitted seen.length) (emitted (seen ++ piece).length) =
          slice (whole input) (emitted seen.length) (emitted (seen ++ piece).length) := by
        rw [slice, causal here, slice]
      have step : (ofTotal raw whole emitted).update seen piece = some (seen ++ piece,
          slice (whole input) (emitted seen.length) (emitted (seen ++ piece).length)) := by
        rw [← first, ofTotal]
      rw [Transformer.feed, step, Option.bind_eq_bind, Option.bind_some]
      simp only [ih (seen ++ piece) seenPrefix, Option.bind_some]
      have grows : emitted seen.length ≤ emitted (seen ++ piece).length :=
        mono (List.prefix_append _ _).length_le
      have growsOn : emitted (seen ++ piece).length ≤ emitted (seen ++ piece ++ rest.flatten).length :=
        mono (List.prefix_append _ _).length_le
      rw [Option.pure_def, slice_append_slice _ grows growsOn]

theorem ofTotal_streams (zero : emitted 0 = 0) (within : emitted input.length ≤ (whole input).length) :
    Streams (ofTotal raw whole emitted) [] emitted input (whole input) where
  during pieces fits := by
    have fed := ofTotal_feed causal mono [] pieces fits
    rw [List.nil_append, List.length_nil, zero] at fed
    exact ⟨_, fed⟩
  atEnd pieces s out flat fed := by
    have all := ofTotal_feed causal mono [] pieces (by rw [List.nil_append, flat])
    rw [List.nil_append, flat] at all
    obtain ⟨rfl, -⟩ := Prod.mk.inj (Option.some_inj.mp (fed.symm.trans all))
    exact ⟨s, rfl⟩
  mono := mono
  within := within

end OfTotal

end BlockStream
