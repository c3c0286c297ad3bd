import Grain.IoBuffer

/-!
# Routes

`route_t` of `route_t.cpp`: a vector of elements of seven kinds. An element is packed as its kind and one number. `route_t::unpack`
has no `default`: a kind that it does not know is passed over, without an element.
-/

namespace Grain

namespace RouteT

/-- An `int`: a `SERVICE_id`, the number of a thread. -/
abbrev CInt := { n : Int // InI32 n }

/-- A `SOCKET_id`. -/
abbrev SocketId := { n : Int // InI64 n }

/-- A pointer, as the number that is packed. -/
abbrev Pointer := { n : Nat // n < 2 ^ 64 }

/-- `Route`. -/
inductive Route where
  | localService (id : CInt)
  | remoteAddr (addr : SocketId)
  | objectHandlerPolled (addr : Pointer)
  | socketRoute (id : SocketId)
  | objectHandlerThreaded (addr : Pointer)
  | thread (id : CInt)
  | listener (id : Pointer)

/-- `Route::RouteType`. -/
def Route.type : Route → Int
  | .localService _ => 1
  | .remoteAddr _ => 2
  | .objectHandlerPolled _ => 3
  | .socketRoute _ => 4
  | .objectHandlerThreaded _ => 5
  | .thread _ => 6
  | .listener _ => 7

/-- `Route::pack`. -/
def Route.pack (r : Route) : Buffer :=
  putInt r.type ++
    match r with
    | .localService id => putInt id.1
    | .remoteAddr addr => putInt addr.1
    | .objectHandlerPolled addr => putPN addr.1
    | .socketRoute id => putInt id.1
    | .objectHandlerThreaded addr => putPN addr.1
    | .thread id => putInt id.1
    | .listener id => putPN id.1

/-- A case of the switch of `operator<`. -/
def lessId (i j : Int) : Option Bool := if i ≠ j then some (decide (i < j)) else none

/-- The switch of `operator<` on two elements: what the operator returns, if it returns there. -/
def Route.less (a r : Route) : Option Bool :=
  if a.type ≠ r.type then some (decide (a.type < r.type))
  else
    match a, r with
    | .localService i, .localService j => lessId i.1 j.1
    | .listener i, .listener j => lessId i.1 j.1
    | .thread i, .thread j => lessId i.1 j.1
    | .remoteAddr i, .remoteAddr j => lessId i.1 j.1
    | .objectHandlerPolled i, .objectHandlerPolled j => lessId i.1 j.1
    | .objectHandlerThreaded i, .objectHandlerThreaded j => lessId i.1 j.1
    | .socketRoute i, .socketRoute j => lessId i.1 j.1
    | _, _ => none

/-- The switch of `operator==`: whether it goes on after two elements. -/
def Route.same (a r : Route) : Bool :=
  if a.type ≠ r.type then false
  else
    match a, r with
    | .listener i, .listener j => i.1 = j.1
    | .localService i, .localService j => i.1 = j.1
    | .thread i, .thread j => i.1 = j.1
    | .remoteAddr i, .remoteAddr j => i.1 = j.1
    | .objectHandlerPolled i, .objectHandlerPolled j => i.1 = j.1
    | .objectHandlerThreaded i, .objectHandlerThreaded j => i.1 = j.1
    | .socketRoute i, .socketRoute j => i.1 = j.1
    | _, _ => false

end RouteT

/-- `route_t`. -/
abbrev RouteT := List RouteT.Route

namespace RouteT

/-- The loop of `operator<`, over the elements of the other route and of this one. -/
def lessLoop : List Route → List Route → Bool
  | a :: l, r :: m =>
    match a.less r with
    | some b => b
    | none => lessLoop l m
  | _, _ => false

/-- `operator<`: a longer route comes before a shorter one, and the other way round for the elements too. -/
def less (this a : RouteT) : Bool :=
  if a.length ≠ this.length then decide (a.length < this.length) else lessLoop a this

/-- The loop of `operator==`. -/
def sameLoop : List Route → List Route → Bool
  | a :: l, r :: m => a.same r && sameLoop l m
  | _, _ => true

/-- `operator==`. -/
def same (this a : RouteT) : Bool :=
  if a.length ≠ this.length then false else sameLoop a this

/-- `route_t::pack`. -/
def pack (r : RouteT) : Buffer := putPN r.length ++ r.flatMap Route.pack

theorem inI32_wrap32 (n : Int) : InI32 (wrap32 n) := by
  rw [InI32, wrap32, Int.bmod]
  omega

theorem inI64_wrap64 (n : Int) : InI64 (wrap64 n) := by
  rw [InI64, wrap64, Int.bmod]
  omega

/-- `operator>>` into an `int`. -/
def unpackInt : Unpack CInt := do
  let n ← getPN
  pure ⟨wrap32 n, inI32_wrap32 n⟩

/-- `operator>>` into a `SOCKET_id`. -/
def unpackSocketId : Unpack SocketId := do
  let n ← getPN
  pure ⟨wrap64 n, inI64_wrap64 n⟩

/-- `operator>>` into a `uint64_t` that becomes a pointer. -/
def unpackPointer : Unpack Pointer := do
  let n ← getPN
  pure ⟨n % 2 ^ 64, Nat.mod_lt _ (by decide)⟩

/-- The switch of `route_t::unpack`: the element that is pushed, if any. -/
def unpackElement (t : Int) : Unpack (Option Route) :=
  if t = 7 then fun _ => none
  else if t = 1 then do
    let id ← unpackInt
    pure (some (.localService id))
  else if t = 6 then do
    let id ← unpackInt
    pure (some (.thread id))
  else if t = 2 then do
    let addr ← unpackSocketId
    pure (some (.remoteAddr addr))
  else if t = 3 then do
    let z ← unpackPointer
    pure (some (.objectHandlerPolled z))
  else if t = 5 then do
    let z ← unpackPointer
    pure (some (.objectHandlerThreaded z))
  else if t = 4 then do
    let id ← unpackSocketId
    pure (some (.socketRoute id))
  else pure none

/-- The loop of `route_t::unpack` for the elements that remain. -/
def unpackLoop : Nat → Unpack (List Route)
  | 0 => pure []
  | n + 1 => do
    let t ← unpackInt
    let r ← unpackElement t.1
    let l ← unpackLoop n
    pure (r.toList ++ l)

/-- `route_t::unpack` into an empty `route_t`. -/
def unpack : Unpack RouteT := do
  let sz ← getPN
  unpackLoop sz

end RouteT

end Grain
