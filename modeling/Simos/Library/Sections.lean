import Mathlib.Logic.Relation

/-!
# Sections that work one at a time

Clients work on shared data in sections.  `work` is one piece of work of a
section, and a section may end when it is `finished`.

* `Serial` says what sections do that come one after another;
* `Serially` allows for one section that is still at work, and is kept when a
  section starts, works and ends;
* `Serial.invariant` is the induction rule.
-/

namespace Simos.Library

variable {Client Job Shared : Type*}

section Serial

variable (work : Job × Shared → Job × Shared → Prop) (finished : Job → Prop)

/-- A section from its start to an end. -/
def Whole (start : Job) (before after : Shared) : Prop :=
  ∃ last, finished last ∧
    Relation.ReflTransGen work (start, before) (last, after)

inductive Serial (first : Shared) : List (Client × Job) → Shared → Prop
  | none : Serial first [] first
  | more {order : List (Client × Job)} {client : Client} {job : Job}
      {middle last : Shared} :
      Serial first order middle → Whole work finished job middle last →
      Serial first (order ++ [(client, job)]) last

/-- A section at work: its client, what it started with and what is left of
it. -/
structure Active (Client Job : Type*) where
  client : Client
  start : Job
  now : Job

/-- Whole sections, one after another, and behind them the section at work. -/
inductive Serially (first : Shared) :
    List (Client × Job) → Option (Active Client Job) → Shared → Prop
  | idle {order : List (Client × Job)} {shared : Shared} :
      Serial work finished first order shared →
      Serially first order none shared
  | active {order : List (Client × Job)} {client : Client} {start now : Job}
      {middle shared : Shared} :
      Serial work finished first order middle →
      Relation.ReflTransGen work (start, middle) (now, shared) →
      Serially first (order ++ [(client, start)]) (some ⟨client, start, now⟩)
        shared

end Serial

variable {work : Job × Shared → Job × Shared → Prop} {finished : Job → Prop}
  {first shared : Shared} {order : List (Client × Job)}

/-- What every whole section keeps holds after any number of them. -/
theorem Serial.invariant {holds : List (Client × Job) → Shared → Prop}
    (serial : Serial work finished first order shared)
    (base : holds [] first)
    (preserved : ∀ order client job before after, holds order before →
      Whole work finished job before after →
        holds (order ++ [(client, job)]) after) :
    holds order shared := by
  induction serial with
  | none =>
      exact base
  | more _ whole inductionHypothesis =>
      exact preserved _ _ _ _ _ inductionHypothesis whole

namespace Serially

theorem start (serially : Serially work finished first order none shared)
    (client : Client) (job : Job) :
    Serially work finished first (order ++ [(client, job)])
      (some ⟨client, job, job⟩) shared := by
  cases serially with
  | idle serial =>
      exact .active serial .refl

theorem worked {client : Client} {start now now' : Job} {shared' : Shared}
    (serially : Serially work finished first order
      (some ⟨client, start, now⟩) shared)
    (piece : work (now, shared) (now', shared')) :
    Serially work finished first order (some ⟨client, start, now'⟩)
      shared' := by
  cases serially with
  | active serial part =>
      exact .active serial (part.tail piece)

theorem finish {client : Client} {start now : Job}
    (serially : Serially work finished first order
      (some ⟨client, start, now⟩) shared)
    (done : finished now) :
    Serially work finished first order none shared := by
  cases serially with
  | active serial part =>
      exact .idle (serial.more ⟨now, done, part⟩)

end Serially

end Simos.Library
