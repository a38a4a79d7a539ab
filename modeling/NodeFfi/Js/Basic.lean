/-!
# JavaScript values and computations

The values of JavaScript over a type `O` of objects, which have an identity and a contents of
their own, and computations that may throw a value (`Js`). The state survives an exception.
-/

namespace NodeFfi.Js

/-- A number: `m * 2 ^ e`, or one of those that are not of this form. -/
inductive Number where
  | nan
  | negZero
  | negInfinity
  | infinity
  | finite (m e : Int)
  deriving DecidableEq, Repr

inductive Value (O : Type) where
  | undefined
  | null
  | bool (b : Bool)
  | number (x : Number)
  | string (s : String)
  | symbol (n : Nat)
  | object (o : O)
  deriving DecidableEq, Repr

/-- A value of one program as a value of another. -/
def Value.map {O O' : Type} (f : O → O') : Value O → Value O'
  | .undefined => .undefined
  | .null => .null
  | .bool b => .bool b
  | .number x => .number x
  | .string s => .string s
  | .symbol n => .symbol n
  | .object o => .object (f o)

/-- `ToBoolean`. -/
def Number.truthy : Number → Bool
  | .nan | .negZero => false
  | .finite m _ => m ≠ 0
  | .negInfinity | .infinity => true

/-- `ToBoolean`. -/
def Value.truthy {O : Type} : Value O → Bool
  | .undefined | .null => false
  | .bool b => b
  | .number x => x.truthy
  | .string s => s ≠ ""
  | .symbol _ | .object _ => true

/-- The objects of a program: the errors that the language makes, and what
`o.message = text + o.message` does with one, which may run a getter or a setter that throws. -/
class Objects (O : Type) where
  typeError : String → O
  rangeError : String → O
  error : String → O
  annotate : String → O → Except (Value O) O

/-- Errors that are their messages. -/
instance : Objects String where
  typeError text := text
  rangeError text := text
  error text := text
  annotate text message := .ok (text ++ message)

/-- A computation on the state `S` that may throw an `ε`. -/
def Js (S ε α : Type) : Type := S → Except ε α × S

namespace Js

variable {S ε ε' α β : Type}

instance : Monad (Js S ε) where
  pure a := fun s => (.ok a, s)
  bind x f := fun s =>
    match x s with
    | (.ok a, s') => f a s'
    | (.error e, s') => (.error e, s')

/-- `throw`. -/
def throw (e : ε) : Js S ε α := fun s => (.error e, s)

/-- `try { x } catch (e) { handler e }`. -/
def tryCatch (x : Js S ε α) (handler : ε → Js S ε' α) : Js S ε' α := fun s =>
  match x s with
  | (.ok a, s') => (.ok a, s')
  | (.error e, s') => handler e s'

/-- A step that cannot throw. -/
def step (f : S → α × S) : Js S ε α := fun s => (.ok (f s).1, (f s).2)

def modify (f : S → S) : Js S ε Unit := fun s => (.ok (), f s)

/-- The outcome of a function that does not touch the state. -/
def ofExcept (r : Except ε α) : Js S ε α := fun s => (r, s)

theorem bind_ok {x : Js S ε α} {f : α → Js S ε β} {s s' : S} {a : α} (h : x s = (.ok a, s')) :
    (x >>= f) s = f a s' := by
  change (match x s with
    | (.ok a, s') => f a s'
    | (.error e, s') => (.error e, s')) = f a s'
  rw [h]

theorem bind_error {x : Js S ε α} {f : α → Js S ε β} {s s' : S} {e : ε}
    (h : x s = (.error e, s')) : (x >>= f) s = (.error e, s') := by
  change (match x s with
    | (.ok a, s') => f a s'
    | (.error e, s') => (.error e, s')) = (.error e, s')
  rw [h]

theorem of_bind_ok {x : Js S ε α} {f : α → Js S ε β} {s s'' : S} {b : β}
    (h : (x >>= f) s = (.ok b, s'')) : ∃ a s', x s = (.ok a, s') ∧ f a s' = (.ok b, s'') := by
  rcases hx : x s with ⟨e | a, s'⟩
  · rw [bind_error hx] at h
    cases h
  · rw [bind_ok hx] at h
    exact ⟨a, s', rfl, h⟩

theorem tryCatch_ok {x : Js S ε α} {handler : ε → Js S ε' α} {s s' : S} {a : α}
    (h : x s = (.ok a, s')) : tryCatch x handler s = (.ok a, s') := by
  unfold tryCatch
  rw [h]

theorem tryCatch_error {x : Js S ε α} {handler : ε → Js S ε' α} {s s' : S} {e : ε}
    (h : x s = (.error e, s')) : tryCatch x handler s = handler e s' := by
  unfold tryCatch
  rw [h]

@[simp] theorem pure_apply (a : α) (s : S) : (pure a : Js S ε α) s = (.ok a, s) := rfl

@[simp] theorem throw_apply (e : ε) (s : S) : (throw e : Js S ε α) s = (.error e, s) := rfl

@[simp] theorem step_apply (f : S → α × S) (s : S) :
    (step f : Js S ε α) s = (.ok (f s).1, (f s).2) := rfl

@[simp] theorem modify_apply (f : S → S) (s : S) : (modify f : Js S ε Unit) s = (.ok (), f s) := rfl

@[simp] theorem ofExcept_apply (r : Except ε α) (s : S) : ofExcept r s = (r, s) := rfl

end Js

section annotate

variable {S O : Type} [Objects O]

/-- `e.message = text + e.message` on a thrown value. On a primitive value the assignment has no
effect, and `undefined` and `null` have no properties. -/
def assignMessage (text : String) : Value O → Except (Value O) (Value O)
  | .undefined =>
    .error (.object (Objects.typeError "Cannot read property 'message' of undefined"))
  | .null => .error (.object (Objects.typeError "Cannot read property 'message' of null"))
  | .object o => (Objects.annotate text o).map .object
  | e => .ok e

def annotate (text : String) (e : Value O) : Js S (Value O) (Value O) :=
  Js.ofExcept (assignMessage text e)

/-- What `e.message = text + e.message; throw e` throws. -/
def annotated (text : String) (e : Value O) : Value O :=
  match assignMessage text e with
  | .ok e => e
  | .error e => e

theorem annotate_throw {α : Type} (text : String) (e : Value O) (s : S) :
    (do let e ← annotate text e; Js.throw e : Js S (Value O) α) s =
      (.error (annotated text e), s) := by
  unfold annotate annotated
  cases assignMessage text e with
  | ok e => rfl
  | error e => rfl

end annotate

end NodeFfi.Js
