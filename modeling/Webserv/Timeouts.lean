/-
Webserv/Timeouts.lean

Which sockets `CheckTimeout` removes.

A `ServerSocket` is never removed, and every event for a `ClientSocket` is an activity.
`CgiSocket::HandleEvent` does not call `UpdateLastActivity`: a CGI socket is removed once
it is old, whatever its program has printed since.
-/
import Webserv.Objects
import Webserv.SocketTable

namespace Webserv

/-- The clock does not go back. -/
def MonotoneClock (w : World) (l : Label) : Prop := (w.clock :: l.times).Pairwise (· ≤ ·)

instance (w : World) (l : Label) : Decidable (MonotoneClock w l) :=
  inferInstanceAs (Decidable (List.Pairwise _ _))

/-- No socket is removed by a sweep within `kRequestTimeout` of an event. -/
def OnlyIdle (w : World) : Prop :=
  ∀ id now time, Entry.expired id now ∈ w.log → Entry.dispatched id time ∈ w.log →
    time < now - kRequestTimeout

/-- The sweep does not find a CGI socket that is older than `kRequestTimeout` and has had an
event since. -/
def QuietCgi (w : World) : Label → Prop
  | .visit _ _ =>
      ∀ now fd id entries g since time, w.control = .sweeping now ((fd, id) :: entries) →
        w.heap id = some (.cgi g) → Entry.created id since ∈ w.log →
        since < now - kRequestTimeout → Entry.dispatched id time ∈ w.log →
        time < now - kRequestTimeout
  | _ => True

/-! ### What activity times tell -/

/-- The entry has to do with time. -/
def Entry.isTimed : Entry → Bool
  | .created _ _ | .dispatched _ _ | .expired _ _ => true
  | _ => false

/-- The activity times of the sockets, and the times in the log. -/
structure Times (clock : Int) (w : World) : Prop where
  dispatched : ∀ id time, Entry.dispatched id time ∈ w.log → time ≤ clock ∧ id < w.nextId
  client : ∀ id c time, w.coreOf id = some (.client c) → Entry.dispatched id time ∈ w.log →
    time ≤ c.lastActivityTime
  cgi : ∀ id g since, w.coreOf id = some (.cgi g) → Entry.created id since ∈ w.log →
    g.lastActivityTime = since
  created : ∀ id since, Entry.created id since ∈ w.log → id < w.nextId
  alive : ∀ id s, w.coreOf id = some s → id < w.nextId
  dead : ∀ id now, Entry.expired id now ∈ w.log → id < w.nextId ∧ w.coreOf id = none

/-- The same socket, with the same activity time. -/
inductive Later : Socket → Socket → Prop
  | server (s : ServerSocket) : Later (.server s) (.server s)
  | client {c c' : ClientSocket} (h : c'.lastActivityTime = c.lastActivityTime) :
      Later (.client c) (.client c')
  | cgi {g g' : CgiSocket} (h : g'.lastActivityTime = g.lastActivityTime) :
      Later (.cgi g) (.cgi g')

theorem Later.refl (s : Socket) : Later s s := by
  cases s with
  | server s => exact .server s
  | client c => exact .client rfl
  | cgi g => exact .cgi rfl

theorem Later.trans {s s' s'' : Socket} (h : Later s s') (h' : Later s' s'') : Later s s'' := by
  cases h with
  | server s => exact h'
  | client h =>
      cases h' with
      | client h' => exact .client (h'.trans h)
  | cgi h =>
      cases h' with
      | cgi h' => exact .cgi (h'.trans h)

/-- Sockets may have gone, and no entry has to do with time. -/
structure Follows (w w' : World) : Prop where
  log : ∀ entry ∈ w'.log, entry.isTimed = true → entry ∈ w.log
  kept : ∀ entry ∈ w.log, entry ∈ w'.log
  nextId : w'.nextId = w.nextId
  core : ∀ id s', w'.coreOf id = some s' → ∃ s, w.coreOf id = some s ∧ Later s s'

namespace Follows

variable {w w' w'' : World} {clock : Int}

theorem trans (h : Follows w w') (h' : Follows w' w'') : Follows w w'' := by
  refine ⟨fun entry hmem ht => h.log entry (h'.log entry hmem ht) ht,
    fun entry hmem => h'.kept entry (h.kept entry hmem), h'.nextId.trans h.nextId, ?_⟩
  intro id s'' hs''
  obtain ⟨s', hs', hlater'⟩ := h'.core id s'' hs''
  obtain ⟨s, hs, hlater⟩ := h.core id s' hs'
  exact ⟨s, hs, hlater.trans hlater'⟩

/-- The log has grown, and the objects are the same or gone. -/
theorem of_log {entries : List Entry} (hlog : w'.log = w.log ++ entries)
    (hentries : ∀ entry ∈ entries, entry.isTimed = false) (hnext : w'.nextId = w.nextId)
    (hcore : ∀ id s, w'.coreOf id = some s → w.coreOf id = some s) : Follows w w' := by
  refine ⟨?_, ?_, hnext, fun id s hs => ⟨s, hcore id s hs, .refl s⟩⟩
  · intro entry hmem htimed
    rw [hlog] at hmem
    obtain hmem | hmem := List.mem_append.mp hmem
    · exact hmem
    · rw [hentries entry hmem] at htimed
      cases htimed
  · intro entry hmem
    rw [hlog]
    exact List.mem_append_left _ hmem

theorem times (h : Follows w w') (ht : Times clock w) : Times clock w' := by
  refine ⟨?_, ?_, ?_, ?_, ?_, ?_⟩
  · intro id time hmem
    rw [h.nextId]
    exact ht.dispatched id time (h.log _ hmem rfl)
  · intro id c' time hc' hmem
    obtain ⟨s, hs, hlater⟩ := h.core id _ hc'
    cases hlater with
    | client heq => exact (ht.client id _ time hs (h.log _ hmem rfl)).trans_eq heq.symm
  · intro id g' since hg' hmem
    obtain ⟨s, hs, hlater⟩ := h.core id _ hg'
    cases hlater with
    | cgi heq => exact heq.trans (ht.cgi id _ since hs (h.log _ hmem rfl))
  · intro id since hmem
    rw [h.nextId]
    exact ht.created id since (h.log _ hmem rfl)
  · intro id s' hs'
    obtain ⟨s, hs, -⟩ := h.core id s' hs'
    rw [h.nextId]
    exact ht.alive id s hs
  · intro id now hmem
    obtain ⟨hlt, hnone⟩ := ht.dead id now (h.log _ hmem rfl)
    rw [h.nextId]
    refine ⟨hlt, ?_⟩
    rcases hs' : w'.coreOf id with - | s'
    · rfl
    · obtain ⟨s, hs, -⟩ := h.core id s' hs'
      rw [hnone] at hs
      cases hs

theorem onlyIdle (h : Follows w w') : OnlyIdle w' ↔ OnlyIdle w := by
  constructor
  · exact fun hidle id now time hexp hdis => hidle id now time (h.kept _ hexp) (h.kept _ hdis)
  · exact fun hidle id now time hexp hdis =>
      hidle id now time (h.log _ hexp rfl) (h.log _ hdis rfl)

end Follows

/-! ### Steps that have to do with time -/

/-- What a part of a step makes of the times, if it removes no socket for its age. -/
structure Ticks (clock : Int) (w : World) (clock' : Int) (w' : World) : Prop where
  times : Times clock w → Times clock' w'
  idle : Times clock w → (OnlyIdle w' ↔ OnlyIdle w)

namespace Ticks

variable {w w' w'' : World} {clock clock' clock'' : Int} {id : SocketId}

theorem trans (h : Ticks clock w clock' w') (h' : Ticks clock' w' clock'' w'') :
    Ticks clock w clock'' w'' :=
  ⟨fun ht => h'.times (h.times ht), fun ht => (h'.idle (h.times ht)).trans (h.idle ht)⟩

theorem follow (h : Follows w w') : Ticks clock w clock w' :=
  ⟨h.times, fun _ => h.onlyIdle⟩

theorem later (hle : clock ≤ clock') : Ticks clock w clock' w := by
  refine ⟨fun ht => ⟨?_, ht.client, ht.cgi, ht.created, ht.alive, ht.dead⟩, fun _ => Iff.rfl⟩
  intro id time hmem
  obtain ⟨htime, hid⟩ := ht.dispatched id time hmem
  exact ⟨htime.trans hle, hid⟩

/-- A new socket has had no event. -/
theorem insert (s : Socket) : Ticks clock w clock (w.insert s) := by
  have hlog : ∀ entry, entry ∈ (w.insert s).log → entry ∈ w.log ∨
      entry = .created w.nextId s.base.lastActivityTime ∨
      entry = .inserted s.getFd w.nextId w.sockets[s.getFd]? := by
    intro entry hmem
    rw [World.log_insert] at hmem
    simpa using hmem
  -- creating an object is neither an event nor an expiry
  have hdis : ∀ id time, Entry.dispatched id time ∈ (w.insert s).log →
      Entry.dispatched id time ∈ w.log := by
    intro id time hmem
    obtain hmem | hmem | hmem := hlog _ hmem
    · exact hmem
    · cases hmem
    · cases hmem
  have hexp : ∀ id now, Entry.expired id now ∈ (w.insert s).log →
      Entry.expired id now ∈ w.log := by
    intro id now hmem
    obtain hmem | hmem | hmem := hlog _ hmem
    · exact hmem
    · cases hmem
    · cases hmem
  have hkept : ∀ entry ∈ w.log, entry ∈ (w.insert s).log := by
    intro entry hmem
    rw [World.log_insert]
    exact List.mem_append_left _ hmem
  have hlt : ∀ {id}, id < w.nextId → id < (w.insert s).nextId := fun h => Nat.lt_succ_of_lt h
  refine ⟨fun ht => ⟨?_, ?_, ?_, ?_, ?_, ?_⟩, fun ht => ⟨?_, ?_⟩⟩
  · intro id time hmem
    obtain ⟨htime, hid⟩ := ht.dispatched id time (hdis id time hmem)
    exact ⟨htime, hlt hid⟩
  · intro id c time hc hmem
    have hmem := hdis id time hmem
    rw [World.coreOf_insert, Function.update_of_ne (ht.dispatched id time hmem).2.ne] at hc
    exact ht.client id c time hc hmem
  · intro id g since hg hmem
    rw [World.coreOf_insert] at hg
    -- the new object has seen no event; its clock is the time of its creation
    by_cases hid : id = w.nextId
    · rw [hid, Function.update_self] at hg
      obtain hmem | hmem | hmem := hlog _ hmem
      · rw [hid] at hmem
        exact absurd (ht.created _ since hmem) (lt_irrefl _)
      · have hbase := congrArg Socket.base (Option.some.inj hg)
        rw [Socket.base_core] at hbase
        cases hmem
        rw [hbase]
        rfl
      · cases hmem
    · rw [Function.update_of_ne hid] at hg
      obtain hmem | hmem | hmem := hlog _ hmem
      · exact ht.cgi id g since hg hmem
      · cases hmem
        exact absurd rfl hid
      · cases hmem
  · intro id since hmem
    obtain hmem | hmem | hmem := hlog _ hmem
    · exact hlt (ht.created id since hmem)
    · cases hmem
      exact Nat.lt_succ_self _
    · cases hmem
  · intro id s' hs'
    rw [World.coreOf_insert] at hs'
    by_cases hid : id = w.nextId
    · rw [hid]
      exact Nat.lt_succ_self _
    · rw [Function.update_of_ne hid] at hs'
      exact hlt (ht.alive id s' hs')
  · intro id now hmem
    obtain ⟨hid, hnone⟩ := ht.dead id now (hexp id now hmem)
    refine ⟨hlt hid, ?_⟩
    rw [World.coreOf_insert, Function.update_of_ne hid.ne]
    exact hnone
  · exact fun hidle id now time he hd => hidle id now time (hkept _ he) (hkept _ hd)
  · exact fun hidle id now time he hd => hidle id now time (hexp id now he) (hdis id time hd)

/-- An activity of a connection. -/
theorem touch {c c' : ClientSocket} (hc : w.coreOf id = some (.client c))
    (hle : clock ≤ c'.lastActivityTime) : Ticks clock w clock (w.put id (.client c')) := by
  refine ⟨fun ht => ⟨ht.dispatched, ?_, ?_, ht.created, ?_, ?_⟩, fun _ => Iff.rfl⟩
  · intro id' c1 time hc1 hmem
    rw [World.coreOf_put] at hc1
    by_cases hid : id' = id
    · rw [hid, Function.update_self] at hc1
      cases hc1
      exact (ht.dispatched id' time hmem).1.trans hle
    · rw [Function.update_of_ne hid] at hc1
      exact ht.client id' c1 time hc1 hmem
  · intro id' g since hg hmem
    rw [World.coreOf_put] at hg
    by_cases hid : id' = id
    · rw [hid, Function.update_self] at hg
      cases hg
    · rw [Function.update_of_ne hid] at hg
      exact ht.cgi id' g since hg hmem
  · intro id' s hs
    rw [World.coreOf_put] at hs
    by_cases hid : id' = id
    · rw [hid]
      exact ht.alive id _ hc
    · rw [Function.update_of_ne hid] at hs
      exact ht.alive id' s hs
  · intro id' now hmem
    obtain ⟨hlt, hnone⟩ := ht.dead id' now hmem
    refine ⟨hlt, ?_⟩
    have hid : id' ≠ id := by
      rintro rfl
      rw [hc] at hnone
      cases hnone
    rw [World.coreOf_put, Function.update_of_ne hid]
    exact hnone

/-- An event: the socket has not been removed. -/
theorem dispatch {s : Socket} {time : Int} (hs : w.coreOf id = some s)
    (hclient : ∀ c, s = .client c → time ≤ c.lastActivityTime) (hclock : clock ≤ clock')
    (htime : time ≤ clock') : Ticks clock w clock' (w.note (.dispatched id time)) := by
  have hlog : ∀ entry, entry ∈ (w.note (.dispatched id time)).log →
      entry ∈ w.log ∨ entry = .dispatched id time := by
    intro entry hmem
    rw [World.log_note] at hmem
    simpa using hmem
  have hkept : ∀ entry ∈ w.log, entry ∈ (w.note (.dispatched id time)).log := by
    intro entry hmem
    rw [World.log_note]
    exact List.mem_append_left _ hmem
  have hexp : ∀ id' now, Entry.expired id' now ∈ (w.note (.dispatched id time)).log →
      Entry.expired id' now ∈ w.log := by
    intro id' now hmem
    obtain hmem | hmem := hlog _ hmem
    · exact hmem
    · cases hmem
  refine ⟨fun ht => ⟨?_, ?_, ?_, ?_, ht.alive, ?_⟩, fun ht => ⟨?_, ?_⟩⟩
  · intro id' time' hmem
    obtain hmem | hmem := hlog _ hmem
    · obtain ⟨htime', hid'⟩ := ht.dispatched id' time' hmem
      exact ⟨htime'.trans hclock, hid'⟩
    · cases hmem
      exact ⟨htime, ht.alive id s hs⟩
  · intro id' c time' hc hmem
    obtain hmem | hmem := hlog _ hmem
    · exact ht.client id' c time' hc hmem
    · cases hmem
      rw [World.coreOf_note, hs] at hc
      exact hclient c (Option.some.inj hc)
  · intro id' g since hg hmem
    obtain hmem | hmem := hlog _ hmem
    · exact ht.cgi id' g since hg hmem
    · cases hmem
  · intro id' since hmem
    obtain hmem | hmem := hlog _ hmem
    · exact ht.created id' since hmem
    · cases hmem
  · exact fun id' now hmem => ht.dead id' now (hexp id' now hmem)
  · exact fun hidle id' now time' he hd => hidle id' now time' (hkept _ he) (hkept _ hd)
  · intro hidle id' now time' he hd
    have he := hexp id' now he
    obtain hd | hd := hlog _ hd
    · exact hidle id' now time' he hd
    · cases hd
      have hnone := (ht.dead id now he).2
      rw [hs] at hnone
      cases hnone

end Ticks

/-! ### Parts of a step -/

section Parts

variable {w w' : World} {clock : Int} {id : SocketId}

theorem perform_follows (w : World) (id : SocketId) (fd : Fd) (actions : List Action) :
    Follows w (w.perform id fd actions) := by
  refine .of_log (World.log_perform w id fd actions) ?_ rfl fun _ _ h => h
  intro entry hmem
  obtain ⟨action, -, rfl⟩ := List.mem_map.mp hmem
  rfl

theorem remove_follows (w : World) (id : SocketId) (fd : Fd) : Follows w (w.remove id fd) := by
  refine .of_log (World.log_remove w id fd) ?_ ?_ ?_
  · intro entry hmem
    rw [List.mem_singleton.mp hmem]
    rfl
  · exact (World.nextId_delete _ _)
  · intro id' s hs
    rw [World.coreOf_remove] at hs
    by_cases hid : id' = id
    · rw [hid, Function.update_self] at hs
      cases hs
    · rwa [Function.update_of_ne hid] at hs

theorem clearResources_follows (w : World) : Follows w w.clearResources := by
  obtain ⟨⟨ids, hlog⟩, hcore⟩ := World.clearResources_objects w
  refine .of_log hlog ?_ (World.nextId_clearResources w) hcore
  intro entry hmem
  obtain ⟨id, -, rfl⟩ := List.mem_map.mp hmem
  rfl

/-- Another kernel, another place in the loop, another clock. -/
theorem same_follows (hheap : w'.heap = w.heap) (hlog : w'.log = w.log)
    (hnext : w'.nextId = w.nextId) : Follows w w' := by
  refine @Follows.of_log w w' [] ?_ ?_ hnext ?_
  · rw [hlog, List.append_nil]
  · intro entry hmem
    cases hmem
  · intro id s hs
    rwa [World.coreOf, hheap] at hs

theorem same_ticks {clock' : Int} (hle : clock ≤ clock') (hheap : w'.heap = w.heap)
    (hlog : w'.log = w.log) (hnext : w'.nextId = w.nextId) : Ticks clock w clock' w' :=
  (Ticks.follow (same_follows hheap hlog hnext)).trans (.later hle)

theorem put_follows {s s' : Socket} (hs : w.coreOf id = some s) (hlater : Later s s'.core) :
    Follows w (w.put id s') := by
  refine ⟨fun entry hmem _ => hmem, fun entry hmem => hmem, rfl, ?_⟩
  intro id' s1 hs1
  rw [World.coreOf_put] at hs1
  by_cases hid : id' = id
  · rw [hid, Function.update_self] at hs1
    cases hs1
    exact ⟨s, by rw [hid]; exact hs, hlater⟩
  · rw [Function.update_of_ne hid] at hs1
    exact ⟨s1, hs1, .refl s1⟩

theorem addSocket_ticks (s : Socket) (epollAdd : Bool) : Ticks clock w clock (w.addSocket s epollAdd) := by
  refine (Ticks.insert s).trans (.follow ?_)
  rw [World.addSocket]
  cases epollAdd with
  | true => exact same_follows rfl rfl rfl
  | false => exact remove_follows _ _ _

theorem serverTurn_ticks {s : ServerSocket} {ans : ServerSocket.Answers} {epollAdd : Bool}
    (h : World.ServerTurn w s ans epollAdd w') : Ticks clock w clock w' := by
  cases h with
  | nothing => exact .later le_rfl
  | closed => exact .follow (same_follows rfl rfl rfl)
  | @accepts fd ip hfd =>
      have hopen : Ticks clock w clock { w with kernel := w.kernel.openFd fd } :=
        same_ticks le_rfl rfl rfl rfl
      exact hopen.trans (addSocket_ticks _ _)

theorem clientHandled_ticks {c : ClientSocket} {hd : ClientSocket.Handled} {fd : Fd}
    {epollAdd : Bool} {time : Int} (hc : w.coreOf id = some (.client c))
    (hclock : clock ≤ time) (htime : time ≤ hd.client.lastActivityTime) :
    Ticks clock w time ((w.note (.dispatched id time)).clientHandled id fd hd epollAdd) := by
  -- the order of the entry and of the change does not matter
  have hput : (w.note (.dispatched id time)).put id (.client hd.client) =
      (w.put id (.client hd.client)).note (.dispatched id time) := rfl
  rw [World.clientHandled, hput]
  have htouch : Ticks clock w clock (w.put id (.client hd.client)) :=
    .touch hc (hclock.trans htime)
  have hself : (w.put id (.client hd.client)).coreOf id = some (Socket.client hd.client).core := by
    rw [World.coreOf_put, Function.update_self]
  have hlast : ∀ c', (Socket.client hd.client).core = .client c' → time ≤ c'.lastActivityTime := by
    intro c' hc'
    cases hc'
    exact htime
  have hdispatch : Ticks clock w time
      ((w.put id (.client hd.client)).note (.dispatched id time)) :=
    htouch.trans (.dispatch hself hlast hclock le_rfl)
  have hperform := hdispatch.trans (.follow (perform_follows _ id fd hd.actions))
  have hadd : Ticks clock w time ((((w.put id (.client hd.client)).note
      (.dispatched id time)).perform id fd hd.actions).addNewSocket hd.newSocket epollAdd) := by
    rcases hd.newSocket with - | g
    · exact hperform
    · exact hperform.trans (addSocket_ticks _ _)
  split_ifs
  · exact hadd.trans (.follow (remove_follows _ _ _))
  · exact hadd

theorem cgiHandled_ticks {g : CgiSocket} {events : Events} {ans : CgiSocket.Answers}
    {h : CgiSocket.Handled}
    (hg : w.heap id = some (.cgi g)) (hcases : World.CgiCases g events ans h) :
    Ticks clock w clock (w.cgiHandled id g.fd h) := by
  obtain ⟨-, htime, -, -⟩ := hcases.base
  have hlater : Later (Socket.cgi g).core (Socket.cgi h.cgi).core := .cgi htime
  have hput : Follows w (w.put id (.cgi h.cgi)) := put_follows (World.coreOf_of hg) hlater
  have hperform := hput.trans (perform_follows _ id g.fd h.actions)
  rw [World.cgiHandled]
  rcases h.reaped with - | pid
  · exact .follow hperform
  · exact .follow (hperform.trans (same_follows rfl rfl rfl))

theorem notify_ticks {fd : Fd} {g : CgiSocket} {exitedZero : Bool}
    {ans : ClientSocket.CgiAnswers} {owner : SocketId} {c : ClientSocket}
    (hc : w.heap owner = some (.client c)) (hclock : clock ≤ ans.now) :
    Ticks clock w clock (w.notify id fd (World.outcomeOf g exitedZero) ans owner c) := by
  obtain ⟨res, -, hres⟩ := World.notify_eq w id fd g exitedZero ans owner c
  have hover : Ticks clock w clock (w.handedOver id owner (World.outcomeOf g exitedZero)) ∧
      (w.handedOver id owner (World.outcomeOf g exitedZero)).heap = w.heap := by
    cases exitedZero with
    | false => exact ⟨.later le_rfl, rfl⟩
    | true =>
        have hnote : Follows w (w.note (.acted id (.handOver owner g.readBuffer))) := by
          refine .of_log (World.log_note _ _) ?_ rfl fun _ _ h => h
          intro entry hmem
          rw [List.mem_singleton.mp hmem]
          rfl
        exact ⟨.follow hnote, rfl⟩
  obtain ⟨hover, hheap⟩ := hover
  rw [hres]
  have hc1 : (w.handedOver id owner (World.outcomeOf g exitedZero)).heap owner =
      some (.client c) := by
    rw [hheap, hc]
  exact (hover.trans (.touch (World.coreOf_of hc1) hclock)).trans
    (.follow (perform_follows _ _ _ _))

theorem cgiEvent_ticks {g : CgiSocket} {events : Events} {ans : CgiSocket.Answers}
    {owner : ClientSocket.CgiAnswers} (hg : w.heap id = some (.cgi g)) (hclock : clock ≤ owner.now)
    (h : w.cgiEvent id g events ans owner = some w') : Ticks clock w clock w' := by
  obtain ⟨hd, w1, -, hcases, hpass, rfl⟩ := World.cgiEvent_cases h
  have hdone : Ticks clock w clock (w.cgiHandled id g.fd hd) := cgiHandled_ticks hg hcases
  have hpassed : Ticks clock w clock w1 := by
    cases hcases with
    | ends hend hreg howner =>
        obtain ⟨c, hc, -, rfl⟩ := World.passOn_cases hpass
        exact hdone.trans (notify_ticks hc hclock)
    | _ =>
        cases hpass
        exact hdone
  split_ifs
  · exact hpassed.trans (.follow (remove_follows _ _ _))
  · exact hpassed

end Parts

/-! ### Steps -/

/-- The clock behind a step. -/
def Label.lastTime (l : Label) (clock : Int) : Int := l.times.getLast?.getD clock

/-- Of readings that do not go back, the last is the latest. -/
theorem le_getLast {clock time : Int} {times : List Int}
    (h : (clock :: times).Pairwise (· ≤ ·)) (hmem : time ∈ clock :: times) :
    time ≤ times.getLast?.getD clock := by
  induction times generalizing clock time with
  | nil => exact (List.mem_singleton.mp hmem).le
  | cons t times ih =>
      rw [List.getLast?_cons, Option.getD_some]
      rw [List.pairwise_cons] at h
      obtain rfl | hmem := List.mem_cons.mp hmem
      · exact (h.1 t List.mem_cons_self).trans (ih h.2 List.mem_cons_self)
      · exact ih h.2 hmem

theorem handles_ticks {w w1 : World} {id : SocketId} {events : Events} {time : Int} {s : Socket}
    {l : Label} (hs : w.heap id = some s) (hclock : MonotoneClock w l)
    (h : World.Handles (w.note (.dispatched id time)) id events w1 time s l) :
    Ticks w.clock w (l.lastTime w.clock) w1 := by
  have hle : ∀ t ∈ l.times, t ≤ l.lastTime w.clock := fun t ht =>
    le_getLast hclock (List.mem_cons_of_mem _ ht)
  have hfirst : ∀ t ∈ l.times, w.clock ≤ t := (List.pairwise_cons.mp hclock).1
  cases h with
  | server h =>
      have hdispatch : Ticks w.clock w time (w.note (.dispatched id time)) :=
        .dispatch (World.coreOf_of hs) (fun c hc => by cases hc) (hfirst _ (by simp [Label.times]))
          le_rfl
      refine (hdispatch.trans (serverTurn_ticks h)).trans (.later (hle _ ?_))
      simp [Label.times]
  | @client c ans epollAdd h =>
      obtain ⟨hd, -, hhd, rfl⟩ := World.clientEvent_cases h
      obtain ⟨-, hlast, -⟩ := ClientSocket.handleEvent_base hhd
      have hnow : time ≤ ans.now := by
        have := (List.pairwise_cons.mp (List.pairwise_cons.mp hclock).2).1
        exact this ans.now (by simp)
      refine (clientHandled_ticks (World.coreOf_of hs) (hfirst _ ?_) ?_).trans (.later (hle _ ?_))
      · simp [Label.times]
      · exact hnow.trans_eq hlast.symm
      · simp [Label.times]
  | @cgi g ans owner h =>
      have hdispatch : Ticks w.clock w time (w.note (.dispatched id time)) :=
        .dispatch (World.coreOf_of hs) (fun c hc => by cases hc) (hfirst _ (by simp [Label.times]))
          le_rfl
      have hnow : time ≤ owner.now := by
        have := (List.pairwise_cons.mp (List.pairwise_cons.mp hclock).2).1
        exact this owner.now (by simp)
      have hs' : (w.note (.dispatched id time)).heap id = some (.cgi g) := hs
      refine (hdispatch.trans (cgiEvent_ticks hs' hnow h)).trans (.later (hle _ ?_))
      simp [Label.times]

/-- A step of another kind removes no socket for its age. -/
theorem turned_ticks {w w' : World} {l : Label} (h : World.Turned w l w')
    (hclock : MonotoneClock w l) (hvisit : ∀ sends date, l ≠ .visit sends date) :
    Ticks w.clock w (l.lastTime w.clock) w' := by
  have hle : w.clock ≤ l.lastTime w.clock := le_getLast hclock List.mem_cons_self
  have hclear : ∀ w, Ticks w.clock w w.clock w.clearResources := fun w =>
    .follow (clearResources_follows w)
  cases h with
  | openFails => exact (hclear w).trans (.later hle)
  | @opens config configs fd now hc hfd =>
      have hopen : Ticks w.clock w w.clock { w with
          kernel := w.kernel.openFd fd
          control := World.nextTurn .starting .top configs } := same_ticks le_rfl rfl rfl rfl
      have hinsert := hopen.trans (.insert (.server ⟨{ fd := fd, lastActivityTime := now }, config⟩))
      exact hinsert.trans (same_ticks hle rfl rfl rfl)
  | @unregistered config configs fd now hc hfd =>
      have hopen : Ticks w.clock w w.clock { w with
          kernel := w.kernel.openFd fd
          control := World.nextTurn .starting .top configs } := same_ticks le_rfl rfl rfl rfl
      have hinsert := hopen.trans (.insert (.server ⟨{ fd := fd, lastActivityTime := now }, config⟩))
      exact (hinsert.trans (.follow (clearResources_follows _))).trans (.later hle)
  | sweeps hc => exact same_ticks hle rfl rfl rfl
  | visits hc hs => exact absurd rfl (hvisit _ _)
  | waits hc => exact same_ticks hle rfl rfl rfl
  | reports hc hr => exact same_ticks hle rfl rfl rfl
  | handles hc hs h => exact (handles_ticks hs hclock h).trans (same_ticks le_rfl rfl rfl rfl)
  | clears => exact (hclear w).trans (.later hle)
  | forks pid child => exact same_ticks hle rfl rfl rfl
  | closes pid file => exact same_ticks hle rfl rfl rfl
  | exits pid => exact same_ticks hle rfl rfl rfl

/-! ### Sweeps -/

/-- What `CheckTimeout` leaves if it removes a socket. -/
structure Expires (w : World) (id : SocketId) (now : Int) (w' : World) : Prop where
  log : ∀ entry ∈ w'.log, entry.isTimed = true → entry ∈ w.log ∨ entry = .expired id now
  kept : ∀ entry ∈ w.log, entry ∈ w'.log
  expired : Entry.expired id now ∈ w'.log
  nextId : w'.nextId = w.nextId
  core : ∀ id' s, w'.coreOf id' = some s → id' ≠ id ∧ w.coreOf id' = some s

namespace Expires

variable {w w' : World} {id : SocketId} {now clock : Int} {s : Socket}

theorem times (h : Expires w id now w') (hs : w.coreOf id = some s) (ht : Times clock w) :
    Times clock w' := by
  have hold : ∀ entry ∈ w'.log, entry.isTimed = true → entry ≠ .expired id now → entry ∈ w.log :=
    fun entry hmem htimed hne => (h.log entry hmem htimed).resolve_right hne
  have hcore : ∀ id' s, w'.coreOf id' = some s → w.coreOf id' = some s :=
    fun id' s hs => (h.core id' s hs).2
  refine ⟨?_, ?_, ?_, ?_, ?_, ?_⟩
  · intro id' time hmem
    rw [h.nextId]
    exact ht.dispatched id' time (hold _ hmem rfl Entry.noConfusion)
  · intro id' c time hc hmem
    exact ht.client id' c time (hcore _ _ hc) (hold _ hmem rfl Entry.noConfusion)
  · intro id' g since hg hmem
    exact ht.cgi id' g since (hcore _ _ hg) (hold _ hmem rfl Entry.noConfusion)
  · intro id' since hmem
    rw [h.nextId]
    exact ht.created id' since (hold _ hmem rfl Entry.noConfusion)
  · intro id' s' hs'
    rw [h.nextId]
    exact ht.alive id' s' (hcore _ _ hs')
  · intro id' now' hmem
    rw [h.nextId]
    have hdead : id' < w.nextId ∧ (id' = id ∨ w.coreOf id' = none) := by
      obtain hmem | heq := h.log _ hmem rfl
      · obtain ⟨hlt, hnone⟩ := ht.dead id' now' hmem
        exact ⟨hlt, .inr hnone⟩
      · cases heq
        exact ⟨ht.alive id s hs, .inl rfl⟩
    refine ⟨hdead.1, ?_⟩
    rcases hs' : w'.coreOf id' with - | s'
    · rfl
    · obtain ⟨hne, halive⟩ := h.core id' s' hs'
      obtain rfl | hnone := hdead.2
      · exact absurd rfl hne
      · rw [hnone] at halive
        cases halive

/-- One more socket has been removed for its age. -/
theorem onlyIdle (h : Expires w id now w') :
    OnlyIdle w' ↔ OnlyIdle w ∧
      ∀ time, Entry.dispatched id time ∈ w.log → time < now - kRequestTimeout := by
  constructor
  · exact fun hidle => ⟨fun id' now' time he hd => hidle id' now' time (h.kept _ he) (h.kept _ hd),
      fun time hd => hidle id now time h.expired (h.kept _ hd)⟩
  · rintro ⟨hidle, hself⟩ id' now' time he hd
    have hd := (h.log _ hd rfl).resolve_right Entry.noConfusion
    obtain he | heq := h.log _ he rfl
    · exact hidle id' now' time he hd
    · cases heq
      exact hself time hd

end Expires

theorem visit_expires {w : World} {id : SocketId} {now : Int} {fd : Fd} {s : Socket}
    (sends : List (Option Nat)) (date : Option Bytes)
    (hout : s.isTimeout (now - kRequestTimeout) = true) :
    Expires w id now (w.visit now fd id s sends date) := by
  -- whatever is done before the deletion, as long as it is no event and touches no other object
  have hremove : ∀ (w1 : World) (entries : List Entry),
      w1.log = (w.note (.expired id now)).log ++ entries →
      (∀ entry ∈ entries, entry.isTimed = false) → w1.nextId = w.nextId →
      (∀ id', id' ≠ id → w1.coreOf id' = w.coreOf id') → Expires w id now (w1.remove id fd) := by
    intro w1 entries hlog hentries hnext hcore
    have hall : (w1.remove id fd).log =
        w.log ++ (.expired id now :: entries ++ [.deleted id]) := by
      rw [World.log_remove, hlog, World.log_note]
      simp
    refine ⟨?_, ?_, ?_, ?_, ?_⟩
    · intro entry hmem htimed
      rw [hall] at hmem
      obtain hmem | hmem := List.mem_append.mp hmem
      · exact .inl hmem
      · obtain hmem | hmem := List.mem_append.mp hmem
        · obtain rfl | hmem := List.mem_cons.mp hmem
          · exact .inr rfl
          · rw [hentries entry hmem] at htimed
            cases htimed
        · rw [List.mem_singleton.mp hmem] at htimed
          cases htimed
    · intro entry hmem
      rw [hall]
      exact List.mem_append_left _ hmem
    · rw [hall]
      simp
    · exact (World.nextId_delete _ _).trans hnext
    · intro id' s' hs'
      rw [World.coreOf_remove] at hs'
      by_cases hid : id' = id
      · rw [hid, Function.update_self] at hs'
        cases hs'
      · rw [Function.update_of_ne hid, hcore id' hid] at hs'
        exact ⟨hid, hs'⟩
  rw [World.visit, if_pos hout]
  dsimp only
  rw [delete_erase]
  cases s with
  | server s => exact hremove _ [] (List.append_nil _).symm (fun _ h => by cases h) rfl fun _ _ => rfl
  | cgi g => exact hremove _ [] (List.append_nil _).symm (fun _ h => by cases h) rfl fun _ _ => rfl
  | client c =>
      refine hremove _ _ rfl ?_ rfl ?_
      · intro entry hmem
        obtain ⟨action, -, rfl⟩ := List.mem_map.mp hmem
        rfl
      · intro id' hid'
        rw [World.coreOf_perform, World.coreOf_put, Function.update_of_ne hid', World.coreOf_note]

/-- A sweep removes an idle socket, unless it is the CGI socket of the condition. -/
theorem visits_idle {w : World} {now : Int} {fd : Fd} {id : SocketId}
    {entries : List (Fd × SocketId)} {s : Socket} (sends : List (Option Nat))
    (date : Option Bytes) (hw : LoopInv w) (ht : Times w.clock w)
    (hc : w.control = .sweeping now ((fd, id) :: entries)) (hs : w.heap id = some s) :
    Times w.clock (w.visit now fd id s sends date) ∧
      (OnlyIdle (w.visit now fd id s sends date) ↔
        OnlyIdle w ∧ QuietCgi w (.visit sends date)) := by
  have hcore := World.coreOf_of hs
  have hquiet : QuietCgi w (.visit sends date) ↔ ∀ g since time, s = .cgi g →
      Entry.created id since ∈ w.log → since < now - kRequestTimeout →
      Entry.dispatched id time ∈ w.log → time < now - kRequestTimeout := by
    constructor
    · intro h g since time hg
      rw [hg] at hs
      exact h now fd id entries g since time hc hs
    · intro h now' fd' id' entries' g since time hc' hg
      rw [hc] at hc'
      cases hc'
      rw [hs] at hg
      exact h g since time (Option.some.inj hg)
  by_cases hout : s.isTimeout (now - kRequestTimeout) = true
  · have hexp := @visit_expires w id now fd s sends date hout
    refine ⟨hexp.times hcore ht, ?_⟩
    rw [hexp.onlyIdle, hquiet]
    refine and_congr_right fun _ => ?_
    cases s with
    | server s => cases hout
    | client c =>
        -- every event was an activity
        have hold : c.lastActivityTime < now - kRequestTimeout := of_decide_eq_true hout
        constructor
        · intro h g since time hg
          cases hg
        · intro h time hd
          exact (ht.client id _ time hcore hd).trans_lt hold
    | cgi g =>
        have hold : g.lastActivityTime < now - kRequestTimeout := of_decide_eq_true hout
        have hmem : id ∈ createdIds w.log := by
          rw [hw.created]
          exact List.mem_range.mpr (hw.lt hs)
        constructor
        · exact fun h g' since time _ _ _ hd => h time hd
        · intro h time hd
          obtain ⟨entry, hentry, hid⟩ := List.mem_filterMap.mp hmem
          cases entry with
          | created id' since =>
              cases hid
              have hsince := ht.cgi id _ since hcore hentry
              exact h g since time rfl hentry (hsince ▸ hold) hd
          | _ => cases hid
  · rw [World.visit, if_neg hout]
    refine ⟨ht, (and_iff_left ?_).symm⟩
    rw [hquiet]
    intro g since time hg hcreated hold
    -- an old CGI socket is timed out
    cases hg
    have hsince := ht.cgi id _ since hcore hcreated
    exact absurd (decide_eq_true (hsince.trans_lt hold)) hout

/-! ### Runs -/

theorem step_idle {w w' : World} {l : Label} (hw : LoopInv w) (ht : Times w.clock w)
    (hclock : MonotoneClock w l) (h : w.step l = some w') :
    Times w'.clock w' ∧ (OnlyIdle w' ↔ OnlyIdle w ∧ QuietCgi w l) := by
  obtain ⟨w1, hturn, rfl⟩ := World.step_cases h
  by_cases hvisit : ∀ sends date, l ≠ .visit sends date
  · have hticks := turned_ticks hturn hclock hvisit
    have hquiet : QuietCgi w l := by
      cases l with
      | visit sends date => exact absurd rfl (hvisit sends date)
      | _ => trivial
    have hafter : Ticks w.clock w (l.lastTime w.clock) { w1 with clock := l.lastTime w.clock } :=
      hticks.trans (same_ticks le_rfl rfl rfl rfl)
    exact ⟨hafter.times ht, (hafter.idle ht).trans (and_iff_left hquiet).symm⟩
  · push Not at hvisit
    obtain ⟨sends, date, rfl⟩ := hvisit
    cases hturn with
    | handles hc hs hev => cases hev
    | @visits now fd id entries s sends date hc hs =>
        obtain ⟨htimes, hidle⟩ := visits_idle sends date hw ht hc hs
        have hsame := @same_ticks (w.visit now fd id s sends date)
          { w.visit now fd id s sends date with
            control := World.nextTurn (.sweeping now) .waiting entries
            clock := w.clock } w.clock w.clock le_rfl rfl rfl rfl
        exact ⟨hsame.times htimes, (hsame.idle htimes).trans hidle⟩

theorem start_times {w : World} (h : World.IsStart w) : Times w.clock w ∧ OnlyIdle w := by
  obtain ⟨configs, open_, clock, rfl⟩ := h
  have hlog : ∀ entry, entry ∉ (World.start configs open_ clock).log := fun _ => List.not_mem_nil
  have hcore : ∀ id s, (World.start configs open_ clock).coreOf id ≠ some s := by
    intro id s hs
    cases hs
  exact ⟨⟨fun _ _ h => absurd h (hlog _), fun _ _ _ _ h => absurd h (hlog _),
    fun _ _ _ _ h => absurd h (hlog _), fun _ _ h => absurd h (hlog _),
    fun _ _ h => absurd h (hcore _ _), fun _ _ h => absurd h (hlog _)⟩,
    fun _ _ _ h => absurd h (hlog _)⟩

/-- **Only idle sockets are removed**, exactly if no sweep finds a CGI socket that is older than
`kRequestTimeout` and has had an event since: the handler of a CGI socket records no
activity. -/
theorem onlyIdle_iff {w0 w : World} {ls : List Label} (hstart : World.IsStart w0)
    (hrun : Transition.run World.step w0 ls = some w)
    (hclock : Transition.Along World.step MonotoneClock w0 ls) :
    OnlyIdle w ↔ Transition.Along World.step QuietCgi w0 ls := by
  obtain ⟨htimes, hidle⟩ := start_times hstart
  have hiff := Transition.run_iff (P := QuietCgi) (Q := OnlyIdle)
    (J := fun w => LoopInv w ∧ Times w.clock w) ⟨start_loopInv hstart, htimes⟩ hrun hclock ?_
  · rw [hiff]
    exact and_iff_right hidle
  · intro s l t hJ hC hst
    obtain ⟨htimes, hidle⟩ := step_idle hJ.1 hJ.2 hC hst
    exact ⟨⟨step_loopInv hJ.1 hst, htimes⟩, hidle⟩

/-! ### A program that prints for more than ten seconds -/

/-- The sockets that were removed for their age, and when. -/
def expiries (log : List Entry) : List (SocketId × Int) :=
  log.filterMap fun entry =>
    match entry with
    | .expired id now => some (id, now)
    | _ => none

/-- The events, and when. -/
def dispatches (log : List Entry) : List (SocketId × Int) :=
  log.filterMap fun entry =>
    match entry with
    | .dispatched id time => some (id, time)
    | _ => none

theorem mem_expiries {log : List Entry} {id : SocketId} {now : Int} :
    (id, now) ∈ expiries log ↔ Entry.expired id now ∈ log := by
  rw [expiries, List.mem_filterMap]
  constructor
  · rintro ⟨entry, hmem, hentry⟩
    cases entry with
    | expired id' now' =>
        cases hentry
        exact hmem
    | _ => cases hentry
  · exact fun h => ⟨_, h, rfl⟩

theorem mem_dispatches {log : List Entry} {id : SocketId} {time : Int} :
    (id, time) ∈ dispatches log ↔ Entry.dispatched id time ∈ log := by
  rw [dispatches, List.mem_filterMap]
  constructor
  · rintro ⟨entry, hmem, hentry⟩
    cases entry with
    | dispatched id' time' =>
        cases hentry
        exact hmem
    | _ => cases hentry
  · exact fun h => ⟨_, h, rfl⟩

/-- A program is started at 0, prints at 9, and is removed at 11. -/
def slowRun : List Label :=
  [.openServer (some 4) 0 true, .checkTimeout 0, .visit [] none,
    .epollWait (some [(⟨4, 1, 0, EPOLLIN⟩, EPOLLIN)]), .serverEvent 0 ⟨some (5, 0), none, 0⟩ true,
    .checkTimeout 0, .visit [] none, .visit [] none,
    .epollWait (some [(⟨5, 2, 1, EPOLLIN⟩, EPOLLIN)]),
    .clientEvent 0 ⟨0, some (bytes "GET /a.py HTTP/1.1\r\nHost: a\r\n\r\n"), sampleSys,
      some .other, false, none, none, none⟩ true,
    .checkTimeout 9, .visit [] none, .visit [] none, .visit [] none,
    .epollWait (some [(⟨6, 3, 2, EPOLLIN⟩, EPOLLIN)]),
    .cgiEvent 9 ⟨some (bytes "x"), false, false⟩ ⟨9, none, false⟩,
    .checkTimeout 11, .visit [] none, .visit [] none, .visit [] none]

theorem slowRun_log : ∃ w, Transition.run World.step (World.start [sampleConfig] [3] 0) slowRun =
    some w ∧ Entry.expired 2 11 ∈ w.log ∧ Entry.dispatched 2 9 ∈ w.log := by
  have hrun : (Transition.run World.step (World.start [sampleConfig] [3] 0) slowRun).map
      (fun w => (decide ((2, 11) ∈ expiries w.log), decide ((2, 9) ∈ dispatches w.log))) =
      some (true, true) := by
    decide +kernel
  obtain ⟨w, hw, hlog⟩ := Option.map_eq_some_iff.mp hrun
  obtain ⟨hexp, hdis⟩ := Prod.mk.inj hlog
  exact ⟨w, hw, mem_expiries.mp (of_decide_eq_true hexp), mem_dispatches.mp (of_decide_eq_true hdis)⟩

theorem slowRun_clock :
    Transition.Along World.step MonotoneClock (World.start [sampleConfig] [3] 0) slowRun := by
  decide +kernel

theorem onlyIdle_slowRun :
    ¬ Transition.Along World.step QuietCgi (World.start [sampleConfig] [3] 0) slowRun := by
  obtain ⟨w, hrun, hexp, hdis⟩ := slowRun_log
  rw [← onlyIdle_iff ⟨_, _, _, rfl⟩ hrun slowRun_clock]
  intro h
  exact absurd (h 2 11 9 hexp hdis) (by decide)

theorem onlyIdle_fails :
    ∃ w, Transition.run World.step (World.start [sampleConfig] [3] 0) slowRun = some w ∧
      Transition.Along World.step MonotoneClock (World.start [sampleConfig] [3] 0) slowRun ∧
      ¬ OnlyIdle w := by
  obtain ⟨w, hrun, hexp, hdis⟩ := slowRun_log
  refine ⟨w, hrun, slowRun_clock, ?_⟩
  intro h
  exact absurd (h 2 11 9 hexp hdis) (by decide)

end Webserv
