import OpenwrtFeed.BridgeFraming
import Mathlib.Logic.Function.Basic

/-! # The descriptor of the client

`hci_bridge.c` keeps the descriptor of the client in `sClientFd`.  The server thread sets it
when a client has connected; `hci_bridge_send` reads it on the thread that polls the
engine, once to see whether there has been a client, and once more to send.  Nothing sets it
back when the server thread closes the connection, so that from then on it names a closed
descriptor, until the next client has connected.  Calls of `hci_bridge_send` are right exactly as
long as they keep out of these intervals (`sends_live_iff`).
-/
namespace OpenwrtFeed.HciBridge

def pgOk : Int := 0
def pgError : Int := -1

/-! ## The two threads -/

/-- What an open descriptor stands for. -/
inductive Descriptor
  | listening
  | connection
  | other
deriving DecidableEq

/-- Where the server thread is, from the first call of `setupServerSocket` in
`hci_bridge_start` on. -/
inductive ServerAt
  | settingUp
  | accepting
  /-- `accept` has returned `s`. -/
  | accepted (s : Int)
  /-- `sClientFd` has been set, and the listening socket is still open. -/
  | assigned (s : Int)
  | session (s : Int)
  /-- `session` has returned, and `close(s)` is next. -/
  | closing (s : Int)
  | ended
deriving DecidableEq

/-- Where the poll thread is: outside `hci_bridge_send`, or between its test of `sClientFd`
and its call of `send`. -/
inductive SenderAt
  | outside
  | tested (b : BridgeSend)
deriving DecidableEq

/-- The global variables, the descriptors that are open, and the two threads. -/
structure Bridge where
  descriptors : Int → Option Descriptor
  sListenFd : Int
  sClientFd : Int
  server : ServerAt
  sender : SenderAt

/-- The steps of the two threads, each with what the system calls in it return. -/
inductive Action
  | setUp (socket bound listened left : Int)
  | accept (s : Int)
  | assign
  | closeListen
  | report (b : BridgeSend) (sent : Int)
  | sessionEnds
  | closeClient
  | test (b : BridgeSend)
  | send (sent : Int)
deriving DecidableEq

/-- What a step of `hci_bridge_send` does: it returns without a call of `send`, it goes on to
one, or it makes it and returns. -/
inductive Call
  | returned (value : Int)
  | goesOn
  | sent (fd : Int) (octets : List UInt8) (value : Int)
deriving DecidableEq

/-- What `setupServerSocket` returns.  It falls off its end after `listen`, and `left` is
what its caller finds then. -/
def setupServerSocket (bound listened left : Int) : Int :=
  if bound ≠ 0 then pgError else if listened ≠ 0 then pgError else left

/-- Where the server thread goes on once the listening socket has been set up. -/
def ServerAt.resume (value : Int) : ServerAt := if value = pgOk then .accepting else .ended

namespace Bridge

/-- The program before `hci_bridge_start`, with the descriptors it has been given. -/
def start (inherited : Int → Bool) : Bridge where
  descriptors fd := if inherited fd then some .other else none
  sListenFd := 0
  sClientFd := 0
  server := .settingUp
  sender := .outside

/-- `socket` and `accept` open a descriptor that is not open. -/
def Opens (st : Bridge) (fd : Int) : Prop := 0 ≤ fd ∧ st.descriptors fd = none

instance (st : Bridge) (fd : Int) : Decidable (st.Opens fd) := inferInstanceAs (Decidable (_ ∧ _))

/-- The call of `send`, and what `hci_bridge_send` returns after it. -/
def sends (order : HostOrder) (st : Bridge) (b : BridgeSend) (sent : Int) : Call :=
  .sent st.sClientFd (hciBridgeSend order b) (if sent = b.length.toNat + 3 then pgOk else pgError)

/-- One step, if the thread is there, and what it does of `hci_bridge_send`. -/
def step (order : HostOrder) (st : Bridge) : Action → Option (Bridge × Option Call)
  | .setUp socket bound listened left =>
    let next := ServerAt.resume (setupServerSocket bound listened left)
    if st.server ≠ .settingUp then none
    else if socket = -1 then
      -- no descriptor can be bound
      if bound = 0 then none else some ({ st with sListenFd := socket, server := next }, none)
    else if st.Opens socket then
      let kind := if bound = 0 ∧ listened = 0 then .listening else .other
      some ({ st with
        descriptors := Function.update st.descriptors socket (some kind)
        sListenFd := socket, server := next }, none)
    else none
  | .accept s =>
    if st.server ≠ .accepting then none
    else if s = -1 then some ({ st with server := .ended }, none)
    else if st.Opens s then
      some ({ st with
        descriptors := Function.update st.descriptors s (some .connection)
        server := .accepted s }, none)
    else none
  | .assign =>
    match st.server with
    | .accepted s => some ({ st with sClientFd := s, server := .assigned s }, none)
    | _ => none
  | .closeListen =>
    match st.server with
    | .assigned s =>
      some ({ st with
        descriptors := Function.update st.descriptors st.sListenFd none
        server := .session s }, none)
    | _ => none
  | .report b sent =>
    -- `session` answers an internal command
    match st.server with
    | .session _ =>
      some (st, some (if st.sClientFd = 0 then .returned pgError else st.sends order b sent))
    | _ => none
  | .sessionEnds =>
    match st.server with
    | .session s => some ({ st with server := .closing s }, none)
    | _ => none
  | .closeClient =>
    match st.server with
    | .closing s =>
      some ({ st with
        descriptors := Function.update st.descriptors s none
        server := .settingUp }, none)
    | _ => none
  | .test b =>
    if st.sender ≠ .outside then none
    else if st.sClientFd = 0 then some (st, some (.returned pgError))
    else some ({ st with sender := .tested b }, some .goesOn)
  | .send sent =>
    match st.sender with
    | .tested b => some ({ st with sender := .outside }, some (st.sends order b sent))
    | .outside => none

/-- A run of the two threads: its steps, each with the state before it. -/
def run (order : HostOrder) (st : Bridge) : List Action → Option (List (Bridge × Action))
  | [] => some []
  | a :: as => (st.step order a).bind fun r => (r.1.run order as).map fun steps => (st, a) :: steps

/-! ## What is expected of a step -/

/-- A client is connected. -/
def Connected (st : Bridge) : Prop := ∃ fd, st.descriptors fd = some .connection

/-- `send` is called with the descriptor of a client that is connected, and without any
`hci_bridge_send` returns `PG_ERROR`. -/
structure Right (st : Bridge) (c : Call) : Prop where
  live : ∀ fd octets value, c = .sent fd octets value → st.descriptors fd = some .connection
  refused : ¬ st.Connected → c = .returned pgError

/-- What a step does of `hci_bridge_send` is right. -/
def RightAt (order : HostOrder) (st : Bridge) (a : Action) : Prop :=
  ∀ st' c, st.step order a = some (st', some c) → st.Right c

end Bridge

/-- The client, from the return of `accept` to `close(s)`. -/
def ServerAt.client : ServerAt → Option Int
  | .accepted s => some s
  | .assigned s => some s
  | .session s => some s
  | .closing s => some s
  | _ => none

/-- The client, from the assignment of `sClientFd` to `close(s)`. -/
def ServerAt.served : ServerAt → Option Int
  | .assigned s => some s
  | .session s => some s
  | .closing s => some s
  | _ => none

/-- The listening socket is open. -/
def ServerAt.listens : ServerAt → Bool
  | .accepting => true
  | .accepted _ => true
  | .assigned _ => true
  | _ => false

namespace Bridge

/-- The poll thread keeps out of the intervals between clients: it does not test
`sClientFd` between `close(s)` and the next return of `accept`, except before the first client, and
does not send between `close(s)` and the next assignment, unless `accept` has returned the
number that is still there. -/
def Timely (st : Bridge) : Action → Prop
  | .test _ => st.sClientFd = 0 ∨ st.server.client ≠ none
  | .send _ => st.server.served ≠ none ∨ st.server = .accepted st.sClientFd
  | _ => True

instance (st : Bridge) : (a : Action) → Decidable (st.Timely a)
  | .test _ => inferInstanceAs (Decidable (_ ∨ _))
  | .send _ => inferInstanceAs (Decidable (_ ∨ _))
  | .setUp .. | .accept _ | .assign | .closeListen | .report .. | .sessionEnds | .closeClient =>
    inferInstanceAs (Decidable True)

/-! ## What a step can be -/

/-- The steps: where each is taken, what it leads to, and what it does of `hci_bridge_send`. -/
inductive Moves (order : HostOrder) (st : Bridge) : Action → Bridge → Option Call → Prop
  | noSocket {bound listened left : Int} (hserver : st.server = .settingUp) (hbound : bound ≠ 0) :
    Moves order st (.setUp (-1) bound listened left)
      { st with sListenFd := -1, server := .resume (setupServerSocket bound listened left) } none
  | setUp {socket bound listened left : Int} (hserver : st.server = .settingUp)
      (hopens : st.Opens socket) :
    Moves order st (.setUp socket bound listened left)
      { st with
        descriptors := Function.update st.descriptors socket
          (some (if bound = 0 ∧ listened = 0 then .listening else .other))
        sListenFd := socket, server := .resume (setupServerSocket bound listened left) } none
  | acceptFails (hserver : st.server = .accepting) :
    Moves order st (.accept (-1)) { st with server := .ended } none
  | accept {s : Int} (hserver : st.server = .accepting) (hopens : st.Opens s) :
    Moves order st (.accept s)
      { st with
        descriptors := Function.update st.descriptors s (some .connection)
        server := .accepted s } none
  | assign {s : Int} (hserver : st.server = .accepted s) :
    Moves order st .assign { st with sClientFd := s, server := .assigned s } none
  | closeListen {s : Int} (hserver : st.server = .assigned s) :
    Moves order st .closeListen
      { st with
        descriptors := Function.update st.descriptors st.sListenFd none
        server := .session s } none
  | report {s : Int} {b : BridgeSend} {sent : Int} (hserver : st.server = .session s) :
    Moves order st (.report b sent) st
      (some (if st.sClientFd = 0 then .returned pgError else st.sends order b sent))
  | sessionEnds {s : Int} (hserver : st.server = .session s) :
    Moves order st .sessionEnds { st with server := .closing s } none
  | closeClient {s : Int} (hserver : st.server = .closing s) :
    Moves order st .closeClient
      { st with
        descriptors := Function.update st.descriptors s none
        server := .settingUp } none
  | refuse {b : BridgeSend} (hfd : st.sClientFd = 0) :
    Moves order st (.test b) st (some (.returned pgError))
  | test {b : BridgeSend} (hfd : st.sClientFd ≠ 0) :
    Moves order st (.test b) { st with sender := .tested b } (some .goesOn)
  | send {b : BridgeSend} {sent : Int} (hsender : st.sender = .tested b) :
    Moves order st (.send sent) { st with sender := .outside } (some (st.sends order b sent))

/-- **A step is one of these.** -/
theorem moves_of_step {order : HostOrder} {st st' : Bridge} {a : Action} {c : Option Call}
    (h : st.step order a = some (st', c)) : Moves order st a st' c := by
  cases a with
  | setUp socket bound listened left =>
    simp only [Bridge.step] at h
    split at h
    · cases h
    · rename_i hserver
      have hserver : st.server = .settingUp := not_not.1 hserver
      split at h
      · rename_i hnone
        subst hnone
        split at h
        · cases h
        · cases h
          exact .noSocket hserver ‹_›
      · split at h
        · cases h
          exact .setUp hserver ‹_›
        · cases h
  | accept s =>
    simp only [Bridge.step] at h
    split at h
    · cases h
    · rename_i hserver
      have hserver : st.server = .accepting := not_not.1 hserver
      split at h
      · rename_i hnone
        subst hnone
        cases h
        exact .acceptFails hserver
      · split at h
        · cases h
          exact .accept hserver ‹_›
        · cases h
  | assign =>
    simp only [Bridge.step] at h
    split at h <;> cases h
    exact .assign ‹_›
  | closeListen =>
    simp only [Bridge.step] at h
    split at h <;> cases h
    exact .closeListen ‹_›
  | report b sent =>
    simp only [Bridge.step] at h
    split at h <;> cases h
    exact .report ‹_›
  | sessionEnds =>
    simp only [Bridge.step] at h
    split at h <;> cases h
    exact .sessionEnds ‹_›
  | closeClient =>
    simp only [Bridge.step] at h
    split at h <;> cases h
    exact .closeClient ‹_›
  | test b =>
    simp only [Bridge.step] at h
    split at h
    · cases h
    · split at h <;> cases h
      · exact .refuse ‹_›
      · exact .test ‹_›
  | send sent =>
    simp only [Bridge.step] at h
    split at h <;> cases h
    exact .send ‹_›

/-! ## What the server thread keeps true -/

/-- The connections, `sClientFd` and the listening socket go by where the server thread is. -/
structure Inv (st : Bridge) : Prop where
  connection : ∀ fd, st.descriptors fd = some .connection ↔ st.server.client = some fd
  served : ∀ s, st.server.served = some s → st.sClientFd = s
  listening : st.server.listens = true → st.descriptors st.sListenFd = some .listening

theorem Inv.start (inherited : Int → Bool) : (Bridge.start inherited).Inv where
  connection fd := by
    refine iff_of_false ?_ (by simp [Bridge.start, ServerAt.client])
    unfold Bridge.start
    dsimp only
    split <;> simp
  served s h := by cases h
  listening h := by cases h

/-- The server thread goes on with the connections as they are. -/
theorem Inv.advance {st st' : Bridge} (h : st.Inv) (hdescriptors : st'.descriptors = st.descriptors)
    (hclient : st'.server.client = st.server.client)
    (hserved : ∀ s, st'.server.served = some s → st'.sClientFd = s)
    (hlistening : st'.server.listens = true → st'.descriptors st'.sListenFd = some .listening) :
    st'.Inv where
  connection fd := by
    rw [hdescriptors, hclient]
    exact h.connection fd
  served := hserved
  listening := hlistening

/-- The connections when a descriptor that is none has been opened or closed as none. -/
theorem connection_update {st : Bridge} (h : st.Inv) {fd : Int}
    (hfd : st.descriptors fd ≠ some .connection) {d : Option Descriptor}
    (hd : d ≠ some .connection) (fd' : Int) :
    Function.update st.descriptors fd d fd' = some .connection ↔ st.server.client = some fd' := by
  rw [← h.connection]
  by_cases heq : fd' = fd
  · subst heq
    rw [Function.update_self]
    exact iff_of_false hd hfd
  · rw [Function.update_of_ne heq]

/-- A set-up that succeeds has bound the socket and listens on it. -/
theorem setupServerSocket_ok {bound listened left : Int}
    (h : setupServerSocket bound listened left = pgOk) : bound = 0 ∧ listened = 0 := by
  unfold setupServerSocket at h
  split at h
  · cases h
  · split at h
    · cases h
    · exact ⟨not_not.1 ‹_›, not_not.1 ‹_›⟩

theorem resume_client (value : Int) : (ServerAt.resume value).client = none := by
  unfold ServerAt.resume
  split <;> rfl

theorem resume_served (value : Int) : (ServerAt.resume value).served = none := by
  unfold ServerAt.resume
  split <;> rfl

theorem resume_listens {value : Int} (h : (ServerAt.resume value).listens = true) :
    value = pgOk := by
  unfold ServerAt.resume at h
  split at h
  · assumption
  · cases h

/-- The listening socket is set up, or not. -/
theorem Inv.setUp {st : Bridge} (h : st.Inv) (hserver : st.server = .settingUp) {socket value : Int}
    {d : Option Descriptor} (hsocket : st.descriptors socket ≠ some .connection)
    (hd : d ≠ some .connection) (hok : value = pgOk → d = some .listening) :
    Inv { st with
      descriptors := Function.update st.descriptors socket d
      sListenFd := socket, server := .resume value } where
  connection fd := by
    have hclient : st.server.client = none := by rw [hserver]; rfl
    rw [connection_update h hsocket hd fd, hclient, resume_client]
  served s hs := nomatch (resume_served value).symm.trans hs
  listening hl := (Function.update_self _ _ _).trans (hok (resume_listens hl))

/-- There is no socket to listen on. -/
theorem Inv.setUp_failed {st : Bridge} (h : st.Inv) (hserver : st.server = .settingUp)
    {socket value : Int} (hvalue : value ≠ pgOk) :
    Inv { st with sListenFd := socket, server := .resume value } := by
  have hclient : st.server.client = none := by rw [hserver]; rfl
  refine h.advance rfl ((resume_client value).trans hclient.symm) (fun s hs => ?_) fun hl => ?_
  · cases (resume_served value).symm.trans hs
  · exact absurd (resume_listens hl) hvalue

/-- A client connects, on a descriptor of its own. -/
theorem Inv.accept {st : Bridge} (h : st.Inv) (hserver : st.server = .accepting) {s : Int}
    (hopens : st.Opens s) :
    Inv { st with
      descriptors := Function.update st.descriptors s (some .connection)
      server := .accepted s } where
  connection fd := by
    have hclient : st.server.client = none := by rw [hserver]; rfl
    show Function.update st.descriptors s (some .connection) fd = _ ↔ some s = some fd
    by_cases heq : fd = s
    · subst heq
      simp
    · rw [Function.update_of_ne heq, h.connection, hclient]
      exact iff_of_false (by simp) fun hs => heq (Option.some.inj hs).symm
  served s hs := nomatch hs
  listening _ := by
    have hlistens := h.listening (by rw [hserver]; rfl)
    show Function.update st.descriptors s (some .connection) st.sListenFd = _
    rw [Function.update_of_ne, hlistens]
    rintro rfl
    cases hopens.2.symm.trans hlistens

/-- The connection is closed. -/
theorem Inv.closeClient {st : Bridge} (h : st.Inv) {s : Int} (hserver : st.server = .closing s) :
    Inv { st with descriptors := Function.update st.descriptors s none, server := .settingUp } where
  connection fd := by
    show Function.update st.descriptors s none fd = _ ↔ none = some fd
    by_cases heq : fd = s
    · subst heq
      simp
    · rw [Function.update_of_ne heq, h.connection, hserver]
      exact iff_of_false (fun hs => heq (Option.some.inj hs).symm) (by simp)
  served s hs := nomatch hs
  listening hl := nomatch hl

/-- The listening socket is closed. -/
theorem Inv.closeListen {st : Bridge} (h : st.Inv) {s : Int} (hserver : st.server = .assigned s) :
    Inv { st with
      descriptors := Function.update st.descriptors st.sListenFd none, server := .session s } where
  connection fd := by
    have hlistens := h.listening (by rw [hserver]; rfl)
    rw [connection_update h (by rw [hlistens]; simp) (by simp) fd, hserver]
    rfl
  served s' hs := h.served s' (by rw [hserver]; exact hs)
  listening hl := nomatch hl

/-- **Every step keeps it.** -/
theorem Inv.step {order : HostOrder} {st st' : Bridge} {a : Action} {c : Option Call} (h : st.Inv)
    (hstep : st.step order a = some (st', c)) : st'.Inv := by
  cases moves_of_step hstep with
  | noSocket hserver hbound =>
    exact h.setUp_failed hserver fun hok => hbound (setupServerSocket_ok hok).1
  | setUp hserver hopens =>
    refine h.setUp hserver (by rw [hopens.2]; simp) ?_ fun hok => ?_
    · split <;> simp
    · rw [if_pos (setupServerSocket_ok hok)]
  | acceptFails hserver =>
    refine h.advance rfl ?_ (fun s hs => (nomatch hs)) fun hl => nomatch hl
    rw [hserver]
    rfl
  | accept hserver hopens => exact h.accept hserver hopens
  | assign hserver =>
    refine h.advance rfl ?_ (fun s hs => Option.some.inj hs) fun _ => ?_
    · rw [hserver]
      rfl
    · exact h.listening (by rw [hserver]; rfl)
  | closeListen hserver => exact h.closeListen hserver
  | report => exact h
  | sessionEnds hserver =>
    refine h.advance rfl ?_ (fun s hs => h.served s ?_) fun hl => nomatch hl
    · rw [hserver]
      rfl
    · rw [hserver]
      exact hs
  | closeClient hserver => exact h.closeClient hserver
  | refuse => exact h
  | test => exact h.advance rfl rfl h.served h.listening
  | send => exact h.advance rfl rfl h.served h.listening

/-- It holds at every step of a run. -/
theorem Inv.run {order : HostOrder} {st : Bridge} (h : st.Inv) {as : List Action}
    {steps : List (Bridge × Action)} (hrun : st.run order as = some steps) :
    ∀ x ∈ steps, x.1.Inv ∧ ∃ r, x.1.step order x.2 = some r := by
  induction as generalizing st steps with
  | nil =>
    cases hrun
    exact fun _ hx => nomatch hx
  | cons a as ih =>
    obtain ⟨r, hstep, hmap⟩ := Option.bind_eq_some_iff.1 hrun
    obtain ⟨rest, hrest, rfl⟩ := Option.map_eq_some_iff.1 hmap
    rw [List.forall_mem_cons]
    exact ⟨⟨h, r, hstep⟩, ih (h.step hstep) hrest⟩

/-! ## When a step is right -/

theorem Inv.connected_iff {st : Bridge} (h : st.Inv) : st.Connected ↔ st.server.client ≠ none := by
  unfold Connected
  simp only [h.connection]
  exact Option.ne_none_iff_exists'.symm

/-- `sClientFd` names the client that is connected. -/
theorem Inv.live_iff {st : Bridge} (h : st.Inv) : st.descriptors st.sClientFd = some .connection ↔
    st.server.served ≠ none ∨ st.server = .accepted st.sClientFd := by
  rw [h.connection]
  have hserved := h.served
  cases hserver : st.server with
  | settingUp => simp [ServerAt.client, ServerAt.served]
  | accepting => simp [ServerAt.client, ServerAt.served]
  | ended => simp [ServerAt.client, ServerAt.served]
  | accepted s => simp [ServerAt.client, ServerAt.served]
  | assigned s =>
    have hfd : st.sClientFd = s := hserved s (by rw [hserver]; rfl)
    simp [ServerAt.client, ServerAt.served, hfd]
  | session s =>
    have hfd : st.sClientFd = s := hserved s (by rw [hserver]; rfl)
    simp [ServerAt.client, ServerAt.served, hfd]
  | closing s =>
    have hfd : st.sClientFd = s := hserved s (by rw [hserver]; rfl)
    simp [ServerAt.client, ServerAt.served, hfd]

/-- A call of `send` is right when its descriptor is that of a client. -/
theorem right_sends (order : HostOrder) (st : Bridge) (b : BridgeSend) (sent : Int) :
    st.Right (st.sends order b sent) ↔ st.descriptors st.sClientFd = some .connection := by
  constructor
  · intro h
    exact h.live _ _ _ rfl
  · intro h
    refine ⟨fun fd octets value heq => ?_, fun hnone => absurd ⟨_, h⟩ hnone⟩
    obtain ⟨rfl, -, -⟩ := Call.sent.inj heq
    exact h

theorem right_refused (st : Bridge) : st.Right (.returned pgError) :=
  ⟨fun _ _ _ h => (nomatch h), fun _ => rfl⟩

/-- **A step is right exactly when it is timely.** -/
theorem Inv.rightAt_iff {order : HostOrder} {st st' : Bridge} {a : Action} {c : Option Call}
    (h : st.Inv) (hstep : st.step order a = some (st', c)) : st.RightAt order a ↔ st.Timely a := by
  have hone : st.RightAt order a ↔ ∀ call, c = some call → st.Right call := by
    unfold RightAt
    rw [hstep]
    exact ⟨fun hall call hcall => hall st' call (by rw [hcall]),
      fun hall _ call heq => hall call (Prod.mk.inj (Option.some.inj heq)).2⟩
  rw [hone]
  cases moves_of_step hstep with
  | refuse hfd =>
    refine iff_of_true ?_ (Or.inl hfd)
    rintro _ ⟨⟩
    exact right_refused st
  | test hfd =>
    show _ ↔ st.sClientFd = 0 ∨ st.server.client ≠ none
    rw [or_iff_right hfd, ← h.connected_iff]
    constructor
    · intro hright
      by_contra hnone
      cases (hright _ rfl).refused hnone
    · rintro hconn _ ⟨⟩
      exact ⟨fun _ _ _ heq => (nomatch heq), fun hnone => absurd hconn hnone⟩
  | send =>
    show _ ↔ st.server.served ≠ none ∨ st.server = .accepted st.sClientFd
    rw [← h.live_iff, ← right_sends order]
    constructor
    · intro hright
      exact hright _ rfl
    · rintro hright _ ⟨⟩
      exact hright
  | report hserver =>
    refine iff_of_true ?_ trivial
    rintro _ ⟨⟩
    split
    · exact right_refused st
    · have hserved : st.server.served ≠ none := by
        rw [hserver]
        simp [ServerAt.served]
      exact (right_sends order st _ _).2 (h.live_iff.2 (Or.inl hserved))
  | _ =>
    -- the other steps of the server thread are none of `hci_bridge_send`
    exact iff_of_true (fun call hcall => (nomatch hcall)) trivial

/-- **`send` is called for a client that is connected, and for none otherwise**, exactly in the
runs in which the poll thread keeps out of the intervals between clients. -/
theorem sends_live_iff {order : HostOrder} {inherited : Int → Bool} {as : List Action}
    {steps : List (Bridge × Action)} (h : (start inherited).run order as = some steps) :
    (∀ x ∈ steps, x.1.RightAt order x.2) ↔ ∀ x ∈ steps, x.1.Timely x.2 := by
  refine forall₂_congr fun x hx => ?_
  obtain ⟨hinv, r, hstep⟩ := (Inv.start inherited).run h x hx
  exact hinv.rightAt_iff hstep

/-! ### Two clients -/

/-- The standard streams and the UART. -/
def firstFour (fd : Int) : Bool := decide (0 ≤ fd ∧ fd < 4)

/-- An event without parameters. -/
def anEvent : BridgeSend := ⟨hciEvent, [0x01, 0x00], 2⟩

/-- A client connects, and an event is forwarded to it. -/
def forwarded : List Action :=
  [.setUp 4 0 0 0, .accept 5, .assign, .closeListen, .test anEvent, .send 5]

theorem sends_live_forwarded : ∃ steps, (start firstFour).run .littleEndian forwarded = some steps ∧
    ∀ x ∈ steps, x.1.RightAt .littleEndian x.2 :=
  ⟨_, rfl, (@sends_live_iff .littleEndian firstFour forwarded _ rfl).2 (by decide)⟩

/-- The client goes, and another event is to be forwarded. -/
def departed : List Action := forwarded ++ [.sessionEnds, .closeClient, .test anEvent, .send (-1)]

/-- **An event is sent to a client that has gone**, on a descriptor that is closed. -/
theorem exists_stale_descriptor : ∃ steps st, (start firstFour).run .littleEndian departed =
    some steps ∧
    steps.getLast? = some (st, .send (-1)) ∧ ¬ st.Connected ∧ st.descriptors 5 = none ∧
    (st.step .littleEndian (.send (-1))).map Prod.snd =
      some (some (.sent 5 [0x03, 0x00, hciEvent, 0x01, 0x00] pgError)) ∧
    ¬ ∀ x ∈ steps, x.1.RightAt .littleEndian x.2 := by
  refine ⟨_, _, rfl, rfl, fun hconn => ?_, by decide, by decide, fun hall => ?_⟩
  · have hinv := @Inv.run .littleEndian _ (Inv.start firstFour) departed _ rfl _
      (List.mem_of_getLast? rfl)
    exact absurd (hinv.1.connected_iff.1 hconn) (by decide)
  · have hlast := (hall _ (List.mem_of_getLast? rfl) _ _ rfl).live 5 _ _ rfl
    exact absurd hlast (by decide)

end Bridge
end OpenwrtFeed.HciBridge
