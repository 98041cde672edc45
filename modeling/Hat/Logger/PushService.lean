import Hat.Core.Expiry
import Hat.Core.Machine
import Mathlib.Data.List.Basic
import Mathlib.Data.Int.Notation

/-!
# The push service of the logger

Clients register for events and are asked from time to time whether they are still there.  One
that does not answer loses one of its lives, one that cannot be written to loses all, and an
answer gives all of them back.  After each round of questions one client that has no life left
is dropped, the first in the order of registration.
-/

namespace Hat.Logger

/-- A connection is known by its descriptor. -/
structure PushConnection (κ : Type*) where
  connection : κ
  address : String
  port : String
  events : List String
  ttl : ℤ
  deriving DecidableEq

/-- What becomes of a question: it cannot be written, there is no answer, or there is one. -/
inductive Reply
  | broken
  | silent
  | here
  deriving DecidableEq

structure PushThread (κ : Type*) where
  maxttl : ℤ
  connections : List (PushConnection κ)

inductive PushThread.Move (κ : Type*)
  | clientInsert (client : PushConnection κ)
  | poll (reply : κ → Reply)

namespace PushThread

variable {κ : Type*}

def AYAsend (reply : κ → Reply) (maxttl : ℤ) (client : PushConnection κ) : PushConnection κ :=
  match reply client.connection with
  | .broken => { client with ttl := -1 }
  | .silent => { client with ttl := client.ttl - 1 }
  | .here => { client with ttl := maxttl }

/-- The loop ends with the first connection that it erases. -/
def clearExpired (connections : List (PushConnection κ)) : List (PushConnection κ) :=
  connections.eraseP fun client => client.ttl ≤ 0

def poll (reply : κ → Reply) (service : PushThread κ) : PushThread κ :=
  { service with
    connections := clearExpired (service.connections.map (AYAsend reply service.maxttl)) }

/-- A new connection has all lives; its descriptor is none that is open. -/
def step [DecidableEq κ] (service : PushThread κ) : Move κ → Option (PushThread κ)
  | .clientInsert client =>
      if client.connection ∈ service.connections.map PushConnection.connection then none
      else some { service with
        connections := service.connections ++ [{ client with ttl := service.maxttl }] }
  | .poll reply => some (service.poll reply)

def Registered (service : PushThread κ) (connection : κ) : Prop :=
  ∃ client ∈ service.connections, client.connection = connection

/-- The replies to the questions that a client was asked. -/
def replies (connection : κ) (moves : List (Move κ)) : List Reply :=
  moves.filterMap fun
    | .clientInsert _ => none
    | .poll reply => some (reply connection)

theorem replies_insert (connection : κ) (client : PushConnection κ) (moves : List (Move κ)) :
    replies connection (.clientInsert client :: moves) = replies connection moves := rfl

theorem replies_poll (connection : κ) (reply : κ → Reply) (moves : List (Move κ)) :
    replies connection (.poll reply :: moves) =
      reply connection :: replies connection moves := rfl

variable {service next final : PushThread κ} {connection : κ} {moves : List (Move κ)}

theorem connection_AYAsend (reply : κ → Reply) (maxttl : ℤ) (client : PushConnection κ) :
    (AYAsend reply maxttl client).connection = client.connection := by
  rw [AYAsend]
  split <;> rfl

/-- The lives that a client has lost are the questions at the end that it did not answer. -/
def Alive (connection : κ) (asked : List Reply) (service : PushThread κ) : Prop :=
  ∃ client ∈ service.connections, client.connection = connection ∧
    ∃ n : ℕ, client.ttl = service.maxttl - n ∧ List.replicate n Reply.silent <:+ asked

theorem Alive.registered {asked : List Reply} (h : Alive connection asked service) :
    service.Registered connection := by
  obtain ⟨client, hclient, hconnection, -⟩ := h
  exact ⟨client, hclient, hconnection⟩

theorem Alive.poll {asked : List Reply} (h : Alive connection asked service) (reply : κ → Reply)
    (hbroken : reply connection ≠ .broken)
    (hrow : ¬List.replicate service.maxttl.toNat Reply.silent <:+ asked ++ [reply connection]) :
    Alive connection (asked ++ [reply connection]) (service.poll reply) := by
  obtain ⟨client, hclient, hconnection, n, httl, hsuffix⟩ := h
  have hpositive : 0 < service.maxttl := by
    by_contra hnot
    rw [Int.toNat_of_nonpos (by omega)] at hrow
    exact hrow (List.nil_suffix)
  have hkept : ∀ m : ℕ, (AYAsend reply service.maxttl client).ttl = service.maxttl - m →
      List.replicate m Reply.silent <:+ asked ++ [reply connection] →
        Alive connection (asked ++ [reply connection]) (service.poll reply) := by
    intro m hlife hm
    refine ⟨_, ?_, (connection_AYAsend reply _ client).trans hconnection, m, hlife, hm⟩
    apply (List.mem_eraseP_of_neg _).mpr (List.mem_map_of_mem hclient)
    rw [decide_eq_true_eq, hlife]
    intro hover
    -- a row of as many silent replies would be at the end
    have hlong : service.maxttl.toNat ≤ m := by omega
    apply hrow
    apply List.IsSuffix.trans _ hm
    rw [← Nat.sub_add_cancel hlong, List.replicate_add]
    exact List.suffix_append _ _
  cases hreply : reply connection with
  | broken => exact absurd hreply hbroken
  | silent =>
      rw [hreply] at hkept
      apply hkept (n + 1)
      · rw [AYAsend, hconnection, hreply]
        simp only [httl]
        omega
      · rw [List.replicate_succ']
        exact List.suffix_append_self_iff.mpr hsuffix
  | here =>
      rw [hreply] at hkept
      apply hkept 0
      · rw [AYAsend, hconnection, hreply]
        simp
      · exact List.nil_suffix

variable [DecidableEq κ]

theorem maxttl_step {move : Move κ} (hnext : service.step move = some next) :
    next.maxttl = service.maxttl := by
  cases move with
  | clientInsert client =>
      rw [step] at hnext
      split at hnext
      · exact absurd hnext.symm (Option.some_ne_none _)
      · rw [← Option.some.inj hnext]
  | poll reply =>
      rw [← Option.some.inj hnext]
      rfl

theorem Alive.exec {asked : List Reply} (h : Alive connection asked service)
    (hbroken : Reply.broken ∉ replies connection moves)
    (hrow : ¬List.replicate service.maxttl.toNat Reply.silent <:+:
      asked ++ replies connection moves)
    (hexec : Machine.exec step service moves = some final) : final.Registered connection := by
  induction moves generalizing service asked with
  | nil =>
      rw [← Option.some.inj hexec]
      exact h.registered
  | cons move rest ih =>
      obtain ⟨next, hnext, hrest⟩ := Machine.exec_cons_eq_some.mp hexec
      have hmaxttl := maxttl_step hnext
      cases move with
      | clientInsert client =>
          rw [replies_insert] at hbroken hrow
          rw [← hmaxttl] at hrow
          refine ih ?_ hbroken hrow hrest
          rw [step] at hnext
          split at hnext
          · exact absurd hnext.symm (Option.some_ne_none _)
          · rw [← Option.some.inj hnext]
            obtain ⟨known, hknown, hsame⟩ := h
            exact ⟨known, List.mem_append_left _ hknown, hsame⟩
      | poll reply =>
          rw [replies_poll] at hbroken hrow
          obtain ⟨hfirst, hlater⟩ := List.ne_and_not_mem_of_not_mem_cons hbroken
          rw [List.append_cons] at hrow
          rw [← Option.some.inj hnext] at hrest
          refine ih (h.poll reply hfirst.symm ?_) hlater hrow hrest
          intro hsuffix
          exact hrow (hsuffix.isInfix.trans (List.prefix_append _ _).isInfix)

/-- The lives of the connections. -/
def clock (κ : Type*) : Expiry.Clock (PushConnection κ) κ where
  key := PushConnection.connection
  life := PushConnection.ttl

omit [DecidableEq κ] in
theorem within_poll {sweeps : ℕ}
    (h : (clock κ).Within connection (sweeps + 1) service.connections) {reply : κ → Reply}
    (hreply : reply connection ≠ .here) :
    (clock κ).Within connection sweeps (service.poll reply).connections := by
  apply h.sweep fun client => connection_AYAsend reply service.maxttl client
  intro client hclient
  have hkey : client.connection = connection := hclient
  change (AYAsend reply service.maxttl client).ttl < client.ttl ∨
    (AYAsend reply service.maxttl client).ttl ≤ 0
  rw [AYAsend, hkey]
  cases hcase : reply connection with
  | broken => exact Or.inr (Int.neg_nonpos_of_nonneg Int.one_nonneg)
  | silent => exact Or.inl (Int.sub_lt_self client.ttl Int.one_pos)
  | here => exact absurd hcase hreply

theorem not_registered_of_exec {sweeps : ℕ}
    (h : (clock κ).Within connection sweeps service.connections)
    (hfresh : ∀ client, Move.clientInsert client ∈ moves → client.connection ≠ connection)
    (hhere : Reply.here ∉ replies connection moves)
    (hsweeps : sweeps ≤ (replies connection moves).length)
    (hexec : Machine.exec step service moves = some final) : ¬final.Registered connection := by
  induction moves generalizing service sweeps with
  | nil =>
      rw [← Option.some.inj hexec]
      rintro ⟨client, hclient, hconnection⟩
      rw [Nat.le_zero.mp hsweeps] at h
      exact h.notMem hclient hconnection
  | cons move rest ih =>
      obtain ⟨next, hnext, hrest⟩ := Machine.exec_cons_eq_some.mp hexec
      have hlater : ∀ client, Move.clientInsert client ∈ rest →
          client.connection ≠ connection :=
        fun client hclient => hfresh client (List.mem_cons_of_mem _ hclient)
      cases move with
      | clientInsert client =>
          rw [replies_insert] at hhere hsweeps
          apply ih _ hlater hhere hsweeps hrest
          rw [step] at hnext
          split at hnext
          · exact absurd hnext.symm (Option.some_ne_none _)
          · rw [← Option.some.inj hnext]
            exact h.concat (hfresh client List.mem_cons_self)
      | poll reply =>
          rw [replies_poll] at hhere hsweeps
          obtain ⟨hfirst, hothers⟩ := List.ne_and_not_mem_of_not_mem_cons hhere
          rw [← Option.some.inj hnext] at hrest
          have hwithin := within_poll (h.mono (by omega : sweeps ≤ sweeps - 1 + 1)) hfirst.symm
          apply ih hwithin hlater hothers _ hrest
          rw [List.length_cons] at hsweeps
          omega

/-! ## A client from its registration on -/

/-- A client that can be written to and never leaves as many questions in a row unanswered as it
has lives stays registered.  One that does not answer at all is dropped as soon as it was asked
as often as it has lives, and once more for each client that was registered before it. -/
theorem registered_of_exec {client : PushConnection κ}
    (hinsert : service.step (.clientInsert client) = some next)
    (hfresh : ∀ other, Move.clientInsert other ∈ moves → other.connection ≠ client.connection)
    (hexec : Machine.exec step next moves = some final) :
    (Reply.broken ∉ replies client.connection moves ∧
        ¬List.replicate service.maxttl.toNat Reply.silent <:+: replies client.connection moves →
      final.Registered client.connection) ∧
    (Reply.here ∉ replies client.connection moves ∧
        service.connections.length + max service.maxttl.toNat 1 ≤
          (replies client.connection moves).length →
      ¬final.Registered client.connection) := by
  have hmaxttl := maxttl_step hinsert
  rw [step] at hinsert
  split at hinsert
  · exact absurd hinsert.symm (Option.some_ne_none _)
  · rename_i hnew
    constructor
    · rintro ⟨hbroken, hrow⟩
      rw [← hmaxttl] at hrow
      have halive : Alive client.connection [] next := by
        rw [← Option.some.inj hinsert]
        exact ⟨_, List.mem_append_right _ (List.mem_singleton_self _), rfl, 0, by simp,
          List.nil_suffix⟩
      exact halive.exec hbroken hrow hexec
    · rintro ⟨hhere, hsweeps⟩
      apply not_registered_of_exec _ hfresh hhere hsweeps hexec
      rw [← Option.some.inj hinsert]
      have hothers : ∀ other ∈ service.connections, other.connection ≠ client.connection :=
        fun other hother hsame => hnew (hsame ▸ List.mem_map_of_mem hother)
      exact @Expiry.Clock.within_concat _ _ (clock κ) _ { client with ttl := service.maxttl } hothers

/-- Three clients with two lives; the first two are never heard of. -/
def wallPanels : PushThread ℕ where
  maxttl := 2
  connections := [⟨4, "10.0.0.4", "81", ["LI_1"], 2⟩]

def wallMoves : List (Move ℕ) :=
  List.replicate 3 (.poll fun connection => if connection = 6 then .here else .silent)

def panel (connection : ℕ) : PushConnection ℕ := ⟨connection, "10.0.0.9", "81", ["LI_2"], 0⟩

theorem registered_of_exec_wallPanels :
    ∃ next final, wallPanels.step (.clientInsert (panel 5)) = some next ∧
      Machine.exec step next (.clientInsert (panel 6) :: wallMoves) = some final ∧
        final.connections.map PushConnection.connection = [6] ∧ ¬final.Registered 5 := by
  have hrun : ((wallPanels.step (.clientInsert (panel 5))).bind fun next =>
      Machine.exec step next (.clientInsert (panel 6) :: wallMoves)).map
        (fun final => final.connections.map PushConnection.connection) = some [6] := by
    decide
  obtain ⟨final, hfinal, hconnections⟩ := Option.map_eq_some_iff.mp hrun
  obtain ⟨next, hnext, hexec⟩ := Option.bind_eq_some_iff.mp hfinal
  have hfresh : ∀ other, Move.clientInsert other ∈ .clientInsert (panel 6) :: wallMoves →
      other.connection ≠ (panel 5).connection := by
    intro other hother
    simp only [wallMoves, List.mem_cons, List.mem_replicate, Move.clientInsert.injEq, reduceCtorEq,
      and_false, or_false] at hother
    rw [hother]
    decide
  exact ⟨next, final, hnext, hexec, hconnections,
    (registered_of_exec hnext hfresh hexec).2 ⟨by decide, by decide⟩⟩

end PushThread

end Hat.Logger
