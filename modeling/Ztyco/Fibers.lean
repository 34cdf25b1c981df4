/-!
The data of fiber.cc that other components read: a fiber's state word and its
function, with the assertions the state-changing members make. `none` is a
failed assertion. Stacks and saved contexts are not data of this model; the
scheduler's model says which thread is executing a fiber and whether the fiber
has finished saving its context.
-/

namespace Ztyco.Fibers

abbrev FiberId := Nat
abbrev Func := Nat

inductive State where
  | init | ready | exec | hold | term | except
  deriving DecidableEq, Repr

structure Fiber where
  m_state : State := .init
  m_func : Option Func := none
  deriving DecidableEq, Repr

def State.finished : State → Bool
  | .term | .except => true
  | .init | .ready | .exec | .hold => false

def Fiber.resetFunc (fiber : Fiber) (func : Option Func) : Option Fiber :=
  if fiber.m_state.finished || fiber.m_state == .init then
    some { m_state := .init, m_func := func }
  else none

def Fiber.swapIn (fiber : Fiber) : Option Fiber :=
  if fiber.m_state = .exec then none else some { fiber with m_state := .exec }

def Fiber.yieldTo (fiber : Fiber) (target : State) : Option Fiber :=
  if fiber.m_state = .exec then some { fiber with m_state := target } else none

/-- The end of `MainFunc`: the function is dropped only when it has returned. -/
def Fiber.finish (fiber : Fiber) (threw : Bool) : Fiber :=
  if threw then { fiber with m_state := .except } else { m_state := .term, m_func := none }

end Ztyco.Fibers
