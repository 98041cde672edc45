import Mathlib.Data.List.Basic

/-!
# Values in a stream

Values are written one after the other, each as a frame of its own, and read from whatever part
of the stream has come in.  A reader of single frames that waits for the rest of an incomplete
frame reads, in a loop, just the values whose frames have come in as a whole.
-/

namespace Hat

/-- What a reader makes of the front of a stream: too little, nothing that it may read, or a
value and what is behind its frame. -/
inductive Cut (γ β : Type*)
  | wait
  | bad
  | item (value : γ) (rest : List β)

/-- The frames of values, with a reader that waits until a frame is complete. -/
structure Framed (α γ β : Type*) where
  fits : α → Prop
  frame : α → List β
  value : α → γ
  cut : List β → Cut γ β
  cut_nil : cut [] = .wait
  cut_frame : ∀ {a : α}, fits a → ∀ rest, cut (frame a ++ rest) = .item (value a) rest
  cut_short : ∀ {a : α}, fits a → ∀ {bytes more}, bytes ++ more = frame a → more ≠ [] →
    cut bytes = .wait

namespace Framed

variable {α γ β σ : Type*}

/-- The loop of a reader, which handles one value after the other. -/
def drain (cut : List β → Cut γ β) (handle : σ → γ → σ) : ℕ → σ → List β → Option (σ × List β)
  | turns, state, bytes =>
      match cut bytes with
      | .wait => some (state, bytes)
      | .bad => none
      | .item value rest =>
          match turns with
          | 0 => none
          | turns + 1 => drain cut handle turns (handle state value) rest

variable (framed : Framed α γ β)

def write (values : List α) : List β := values.flatMap framed.frame

@[simp]
theorem write_nil : framed.write [] = [] := rfl

@[simp]
theorem write_append (values more : List α) :
    framed.write (values ++ more) = framed.write values ++ framed.write more :=
  List.flatMap_append

theorem write_cons (a : α) (values : List α) :
    framed.write (a :: values) = framed.frame a ++ framed.write values := rfl

theorem write_singleton (a : α) : framed.write [a] = framed.frame a := List.append_nil _

variable {framed}

/-- No value has an empty frame. -/
theorem frame_ne_nil {a : α} (hfits : framed.fits a) : framed.frame a ≠ [] := by
  intro hnil
  have hcut := framed.cut_frame hfits []
  rw [hnil, List.append_nil, framed.cut_nil] at hcut
  cases hcut

/-- The front of a stream is cut where its first frame ends, if it is long enough. -/
theorem cut_cases {values : List α} (hfits : ∀ a ∈ values, framed.fits a) {bytes more : List β}
    (hbytes : bytes ++ more = framed.write values) :
    framed.cut bytes = .wait ∨ ∃ a rest left, values = a :: rest ∧
      bytes = framed.frame a ++ left ∧ framed.cut bytes = .item (framed.value a) left ∧
        left ++ more = framed.write rest := by
  cases values with
  | nil =>
      rw [(List.append_eq_nil_iff.mp hbytes).1]
      exact Or.inl framed.cut_nil
  | cons a rest =>
      have hfirst := hfits a List.mem_cons_self
      rw [write_cons] at hbytes
      rcases List.append_eq_append_iff.mp hbytes with ⟨missing, hframe, -⟩ | ⟨left, hleft, hrest⟩
      · by_cases hmissing : missing = []
        · rw [hmissing, List.append_nil] at hframe
          have hleft : bytes = framed.frame a ++ [] := by
            rw [hframe, List.append_nil]
          rw [hframe] at hbytes
          refine Or.inr ⟨a, rest, [], rfl, hleft, ?_, List.append_cancel_left hbytes⟩
          rw [hleft]
          exact framed.cut_frame hfirst []
        · exact Or.inl (framed.cut_short hfirst hframe.symm hmissing)
      · refine Or.inr ⟨a, rest, left, rfl, hleft, ?_, hrest.symm⟩
        rw [hleft]
        exact framed.cut_frame hfirst left

/-- The loop handles the values whose frames have come in, and keeps what is left of the front. -/
theorem drain_spec (handle : σ → γ → σ) {values : List α}
    (hfits : ∀ a ∈ values, framed.fits a) {bytes more : List β}
    (hbytes : bytes ++ more = framed.write values) {turns : ℕ} (hturns : bytes.length ≤ turns)
    (state : σ) :
    ∃ done rest left, values = done ++ rest ∧
      drain framed.cut handle turns state bytes =
        some ((done.map framed.value).foldl handle state, left) ∧
      left ++ more = framed.write rest ∧ framed.cut left = .wait := by
  induction values generalizing bytes turns state with
  | nil =>
      have hnil := (List.append_eq_nil_iff.mp hbytes).1
      refine ⟨[], [], bytes, rfl, ?_, hbytes, hnil ▸ framed.cut_nil⟩
      rw [drain, hnil, framed.cut_nil]
      rfl
  | cons a values ih =>
      rcases cut_cases hfits hbytes with hwait | ⟨_, rest, left, hcons, hfront, hcut, hleft⟩
      · refine ⟨[], a :: values, bytes, rfl, ?_, hbytes, hwait⟩
        rw [drain, hwait]
        rfl
      · obtain ⟨rfl, rfl⟩ := List.cons.inj hcons
        obtain ⟨hfirst, hrest⟩ := List.forall_mem_cons.mp hfits
        have hframe := List.length_pos_of_ne_nil (frame_ne_nil hfirst)
        have hlength : bytes.length = (framed.frame a).length + left.length := by
          rw [hfront, List.length_append]
        cases turns with
        | zero => omega
        | succ turns =>
            obtain ⟨done, later, behind, hsplit, hdrain, hbehind, hwait⟩ :=
              ih hrest hleft (by omega : left.length ≤ turns) (handle state (framed.value a))
            refine ⟨a :: done, later, behind, congrArg (a :: ·) hsplit, ?_, hbehind, hwait⟩
            rw [drain, hcut]
            exact hdrain

end Framed

end Hat
