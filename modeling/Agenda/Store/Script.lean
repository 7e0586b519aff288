import Agenda.Store.Basic

/-!
# Scripts of store calls

A request talks to the store in calls, each of which is done as a whole. A script is a request's
sequence of calls, where each may depend on the answers to those before it, and its result. Two
scripts can be run one after the other or with their calls interleaved.
-/

namespace Agenda

inductive Call
  | add (task : Task)
  | get (id : String)
  | update (task : Task)
  | delete (id : String)
  | setDate (id date : String)
  | list (query : Query) (limit : Nat)

namespace Call

def Answer : Call → Type
  | add _ => Nat
  | get _ => Except StoreError Task
  | update _ => Except StoreError Unit
  | delete _ => Except StoreError Unit
  | setDate _ _ => Except StoreError Unit
  | list _ _ => Except StoreError (List Task)

end Call

namespace Store

/-- The store after a change that may have failed, which then has changed nothing. -/
def settle (s : Store) : Except StoreError Store → Store × Except StoreError Unit
  | .error e => (s, .error e)
  | .ok s' => (s', .ok ())

def perform (s : Store) : (c : Call) → Store × c.Answer
  | .add task => s.add task
  | .get id => (s, s.get id)
  | .update task => s.settle (s.update task)
  | .delete id => s.settle (s.delete id)
  | .setDate id date => s.settle (s.setDate id date)
  | .list query limit => (s, s.list query limit)

end Store

/-- A sequence of calls and its result. -/
inductive Script (α : Type)
  | done (result : α)
  | call (c : Call) (next : c.Answer → Script α)

namespace Script

variable {α β : Type}

def run (s : Store) : Script α → Store × α
  | done result => (s, result)
  | call c next => ((next (s.perform c).2).run (s.perform c).1)

def map (f : α → β) : Script α → Script β
  | done result => done (f result)
  | call c next => call c fun answer => (next answer).map f

theorem run_map (f : α → β) (s : Store) (p : Script α) :
    (p.map f).run s = ((p.run s).1, f (p.run s).2) := by
  induction p generalizing s with
  | done => rfl
  | call c next ih => exact ih _ _

end Script

end Agenda
