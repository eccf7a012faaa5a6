/-
Webserv/Answering.lean

No request that has been accepted is forgotten.

A connection whose request is done has a response, and waits to send it or for the end of its
CGI program.  A program that is timed out tells its owner nothing; the owner has been idle for
longer, so the same sweep removes it too.
-/
import Webserv.Owners
import Webserv.Responses
import Webserv.SideEffects
import Webserv.Sweeps
import Webserv.Timeouts

namespace Webserv

/-! ### What is assumed of a run -/

/-- The calls of `epoll_ctl` in the step succeed. -/
def Label.ctlSucceeds : Label → Bool
  | .openServer _ _ epollAdd | .serverEvent _ _ epollAdd => epollAdd
  | .clientEvent _ ans epollAdd => ans.epollMod.isNone && ans.epollModError && epollAdd
  | .cgiEvent _ ans owner => ans.registered && owner.epollMod
  | _ => true

/-- An event that a connection is given is an input or an output. -/
def World.hearsOrSends (w : World) : Label → Bool
  | .clientEvent _ _ _ => w.control.events.head?.all fun e => e.2.epollIn || e.2.epollOut
  | _ => true

/-- What a CGI socket reads fits into its string. -/
def World.outputFits (w : World) : Label → Bool
  | .cgiEvent _ ans _ =>
      w.control.events.head?.all fun e => (w.heap e.1).all fun s =>
        s.base.readBuffer.length + ((ans.read.getD []).take kBufferSize).length ≤ stringMaxSize
  | _ => true

/-- **What is assumed of a step.** -/
structure Orderly (w : World) (l : Label) : Prop where
  clock : MonotoneClock w l
  ctl : l.ctlSucceeds = true
  events : w.hearsOrSends l = true
  output : w.outputFits l = true

instance (w : World) (l : Label) : Decidable (Orderly w l) :=
  decidable_of_iff
    (MonotoneClock w l ∧ l.ctlSucceeds = true ∧ w.hearsOrSends l = true ∧ w.outputFits l = true)
    ⟨fun h => ⟨h.1, h.2.1, h.2.2.1, h.2.2.2⟩, fun h => ⟨h.clock, h.ctl, h.events, h.output⟩⟩

/-- The calls for an event of a connection. -/
theorem ctlSucceeds_client {time : Int} {ans : ClientSocket.Answers} {epollAdd : Bool}
    (h : (Label.clientEvent time ans epollAdd).ctlSucceeds = true) :
    ans.epollMod = none ∧ ans.epollModError = true ∧ epollAdd = true := by
  rw [Label.ctlSucceeds, Bool.and_eq_true, Bool.and_eq_true, Option.isNone_iff_eq_none, and_assoc] at h
  exact h

/-! ### Events of a connection -/

namespace ClientSocket

variable {self newId : SocketId} {events : Events} {ans : Answers} {c : ClientSocket} {hd : Handled}

/-- **An event of a connection whose request is done**: it has a response, and has been told to
send it, or has started a program. -/
theorem handleEvent_answers (hh : c.handleEvent self newId events ans = some hd)
    (hctl : ans.epollMod = none ∧ ans.epollModError = true)
    (hevents : events.epollIn = true ∨ events.epollOut = true)
    (hone : events.epollOut = true → events.epollIn = false)
    (hbuffer : c.req.state = .kDone → c.writeBuffer ≠ []) (hkept : hd.removeSocket = false)
    (hdone : hd.client.req.state = .kDone) :
    hd.client.writeBuffer ≠ [] ∧
      (.epollMod EPOLLOUT ∈ hd.actions ∨ events.epollOut = true ∨
        ∃ g, hd.newSocket = some g ∧ g.lastActivityTime = ans.sys.now) := by
  have hcaught := handleEvent_caught hh
  rcases hout : events.epollOut with - | -
  · have hin : events.epollIn = true := hevents.resolve_right fun h => by rw [hout] at h; cases h
    have hr := handleEvents_in self newId ans hin hout { client := c.touch ans.now }
    generalize (handleEvents self newId events ans).run { client := c.touch ans.now } = r at hr hcaught
    cases hcaught with
    | closed => cases hkept
    | @refused status res hres h2 =>
        rw [refuse, if_pos hctl.2]
        exact ⟨res.toHttpString_ne_nil _, .inl (List.mem_append_right _ (List.mem_singleton.mpr rfl))⟩
    | returned =>
        cases hr with
        | waits hdata hparse hstate => exact absurd hdone hstate
        | answered hdata hparse hstate hrun =>
            refine ⟨HttpResponse.toHttpString_ne_nil _ _, .inl ?_⟩
            exact List.mem_append_right _ (List.mem_singleton.mpr rfl)
        | started =>
            refine ⟨HttpResponse.toHttpString_ne_nil _ _, .inr (.inr ⟨_, rfl, rfl⟩)⟩
  · have hr := handleEvents_out self newId ans (hone hout) hout { client := c.touch ans.now }
    generalize (handleEvents self newId events ans).run { client := c.touch ans.now } = r at hr hcaught
    refine ⟨?_, .inr (.inl rfl)⟩
    cases hcaught with
    | closed => cases hkept
    | refused => cases hr
    | returned =>
        cases hr with
        | idle => exact hbuffer hdone
        | partly hn =>
            intro hnil
            exact absurd (List.drop_eq_nil_iff.mp hnil) (not_le.mpr hn)

end ClientSocket

/-! ### Links that stay -/

/-- `last_activity_time_`, of a CGI socket. -/
def Socket.cgiTime : Socket → Option Int
  | .cgi g => some g.lastActivityTime
  | _ => none

/-- `last_activity_time_`, of a CGI socket that is alive. -/
def World.cgiTimeOf (w : World) (id : SocketId) : Option Int := (w.heap id).bind Socket.cgiTime

/-- **A pointer stays** as long as both objects are alive; a CGI socket gets no younger, and what
is gone does not come back. -/
structure KeepsLinks (w w' : World) : Prop where
  nextId : w.nextId ≤ w'.nextId
  dead : ∀ id < w.nextId, w.heap id = none → w'.heap id = none
  time : ∀ g t, g < w.nextId → w.cgiTimeOf g = some t → w'.heap g ≠ none → w'.cgiTimeOf g = some t
  links : ∀ c g, c < w.nextId → g < w.nextId → w.childOf c = some g → w'.heap c ≠ none →
    w'.heap g ≠ none → w'.childOf c = some g

section Links

variable {w w' w'' : World} {id : SocketId} {s s' : Socket} {fd : Fd}

@[simp] theorem Socket.cgiTime_onSetOwner (s : Socket) (owner : Option SocketId) :
    (s.onSetOwner owner).cgiTime = s.cgiTime := by
  cases s with
  | server | client | cgi => rfl

@[simp] theorem Socket.cgiTime_removeCgiSocket (s : Socket) (sock : SocketId) :
    (s.removeCgiSocket sock).cgiTime = s.cgiTime := by
  cases s with
  | server | client | cgi => rfl

namespace KeepsLinks

theorem of_heap (hheap : w'.heap = w.heap) (hnext : w'.nextId = w.nextId) : KeepsLinks w w' := by
  refine ⟨hnext.ge, fun id _ hid => ?_, fun g t _ ht _ => ?_, fun c g _ _ hc _ _ => ?_⟩
  · rw [hheap]
    exact hid
  · rw [World.cgiTimeOf, hheap]
    exact ht
  · rw [World.childOf, hheap]
    exact hc

theorem refl (w : World) : KeepsLinks w w := .of_heap rfl rfl

theorem trans (h : KeepsLinks w w') (h' : KeepsLinks w' w'') : KeepsLinks w w'' := by
  refine ⟨h.nextId.trans h'.nextId, fun id hid hdead => ?_, fun g t hg ht hg'' => ?_,
    fun c g hc hg hchild hc'' hg'' => ?_⟩
  · exact h'.dead id (hid.trans_le h.nextId) (h.dead id hid hdead)
  · have hg' := hg.trans_le h.nextId
    exact h'.time g t hg' (h.time g t hg ht fun hdead => hg'' (h'.dead g hg' hdead)) hg''
  · have hc' := hc.trans_le h.nextId
    have hg' := hg.trans_le h.nextId
    refine h'.links c g hc' hg' (h.links c g hc hg hchild ?_ ?_) hc'' hg''
    · exact fun hdead => hc'' (h'.dead c hc' hdead)
    · exact fun hdead => hg'' (h'.dead g hg' hdead)

/-- The socket has changed, and points at what it pointed at. -/
theorem put (hs : w.heap id = some s) (htime : ∀ t, s.cgiTime = some t → s'.cgiTime = some t)
    (hchild : ∀ g, s.cgiSocket = some g → s'.cgiSocket = some g) : KeepsLinks w (w.put id s') := by
  refine ⟨le_rfl, fun id' _ hdead => ?_, fun g t _ ht _ => ?_, fun c g _ _ hc _ _ => ?_⟩
  · have hne : id' ≠ id := by
      rintro rfl
      rw [hs] at hdead
      cases hdead
    exact (Function.update_of_ne hne _ _).trans hdead
  · by_cases hself : g = id
    · subst hself
      rw [World.cgiTimeOf, hs] at ht
      have hput : (w.put g s').heap g = some s' := Function.update_self _ _ _
      rw [World.cgiTimeOf, hput]
      exact htime t ht
    · have hput : (w.put id s').heap g = w.heap g := Function.update_of_ne hself _ _
      rw [World.cgiTimeOf, hput]
      exact ht
  · rw [World.childOf_put]
    by_cases hself : c = id
    · subst hself
      rw [Function.update_self]
      exact hchild g ((World.childOf_of hs).symm.trans hc)
    · rw [Function.update_of_ne hself]
      exact hc

theorem perform (h : KeepsLinks w w') (id : SocketId) (fd : Fd) (actions : List Action) :
    KeepsLinks w (w'.perform id fd actions) := h.trans (.of_heap rfl rfl)

theorem insert (w : World) (s : Socket) : KeepsLinks w (w.insert s) := by
  have hold : ∀ id < w.nextId, (w.insert s).heap id = w.heap id := fun id hid =>
    Function.update_of_ne hid.ne _ _
  refine ⟨Nat.le_succ _, fun id hid hdead => (hold id hid).trans hdead, fun g t hg ht _ => ?_,
    fun c g hc _ hchild _ _ => ?_⟩
  · rw [World.cgiTimeOf, hold g hg]
    exact ht
  · rw [World.childOf, hold c hc]
    exact hchild

/-- A destructor has only those forget it that point at it. -/
theorem delete (w : World) (id : SocketId) : KeepsLinks w (w.delete id) := by
  rcases hs : w.heap id with - | s
  · have hdelete : w.delete id = w.note (.deleted id) := by rw [World.delete, hs]
    rw [hdelete]
    exact .of_heap rfl rfl
  · have hheap := delete_heap hs
    have hnext := World.nextId_delete w id
    have hne : ∀ {x : SocketId}, (w.delete id).heap x ≠ none → x ≠ id := by
      rintro x hx rfl
      rw [hheap, Function.update_self] at hx
      exact hx rfl
    refine ⟨hnext.ge, fun id' _ hdead => ?_, fun g t _ ht hg => ?_, fun c g _ _ hchild hc hg => ?_⟩
    · rw [hheap, Function.update_apply, unlink_heap, hdead]
      split_ifs
      · rfl
      · rfl
      · rfl
      · rfl
    · obtain ⟨u, hu, hutime⟩ := Option.bind_eq_some_iff.mp ht
      rw [World.cgiTimeOf, hheap, Function.update_of_ne (hne hg), unlink_heap, hu]
      split_ifs
      · exact (u.cgiTime_onSetOwner none).trans hutime
      · exact (u.cgiTime_removeCgiSocket id).trans hutime
      · exact hutime
    · obtain ⟨t, ht, htchild⟩ := Option.bind_eq_some_iff.mp hchild
      rw [World.childOf, hheap, Function.update_of_ne (hne hc), unlink_heap, ht]
      split_ifs
      · exact (t.cgiSocket_onSetOwner none).trans htchild
      · cases t with
        | client t =>
            have hother : ¬ t.cgiSocket = some id := by
              intro heq
              rw [show t.cgiSocket = some g from htchild] at heq
              exact hne hg (Option.some.inj heq)
            show (t.removeCgiSocket id).cgiSocket = some g
            rw [ClientSocket.removeCgiSocket, if_neg hother]
            exact htchild
        | server => cases htchild
        | cgi => cases htchild
      · exact htchild

theorem remove (w : World) (id : SocketId) (fd : Fd) : KeepsLinks w (w.remove id fd) := by
  have herase : KeepsLinks w (w.erase fd) := .of_heap rfl rfl
  exact herase.trans (.delete _ id)

theorem addSocket (w : World) (s : Socket) (epollAdd : Bool) : KeepsLinks w (w.addSocket s epollAdd) := by
  rw [World.addSocket]
  cases epollAdd with
  | true => exact (insert w s).trans (.of_heap rfl rfl)
  | false => exact (insert w s).trans (.remove _ w.nextId s.getFd)

theorem addNewSocket (w : World) (new : Option CgiSocket) (epollAdd : Bool) :
    KeepsLinks w (w.addNewSocket new epollAdd) := by
  rcases new with - | g
  · exact .refl w
  · exact .addSocket w (.cgi g) epollAdd

end KeepsLinks

theorem clientHandled_keepsLinks {c : ClientSocket} {events : Events} {ans : ClientSocket.Answers}
    {hd : ClientSocket.Handled} (hc : w.heap id = some (.client c))
    (hdone : c.req.state ≠ .kDone → c.cgiSocket = none)
    (hhd : c.handleEvent id w.nextId events ans = some hd) (epollAdd : Bool) :
    KeepsLinks w (w.clientHandled id c.fd hd epollAdd) := by
  have hput : KeepsLinks w (w.put id (.client hd.client)) := by
    refine .put hc (fun _ ht => by cases ht) fun g hg => ?_
    have hg : c.cgiSocket = some g := hg
    obtain ⟨-, hsame⟩ | ⟨-, -, -, -, hstate, -⟩ := handleEvent_child hhd
    · exact hsame.trans hg
    · rw [hdone hstate] at hg
      cases hg
  have hadd := (hput.perform id c.fd hd.actions).trans (.addNewSocket _ hd.newSocket epollAdd)
  rw [World.clientHandled]
  split_ifs
  · exact hadd.trans (.remove _ id c.fd)
  · exact hadd

theorem cgiEvent_keepsLinks {g : CgiSocket} {events : Events} {ans : CgiSocket.Answers}
    {owner : ClientSocket.CgiAnswers} (hg : w.heap id = some (.cgi g))
    (hevent : w.cgiEvent id g events ans owner = some w') : KeepsLinks w w' := by
  obtain ⟨hd, w1, -, hcases, hpass, rfl⟩ := World.cgiEvent_cases hevent
  -- the event itself touches no pointer and no clock of the program
  have hdone : KeepsLinks w (w.cgiHandled id g.fd hd) := by
    have hput : KeepsLinks w (w.put id (.cgi hd.cgi)) := by
      refine .put hg (fun t ht => ?_) fun _ hchild => by cases hchild
      rw [Socket.cgiTime, hcases.base.2.1]
      exact ht
    refine hput.trans (.of_heap ?_ ?_)
    all_goals
      rw [World.cgiHandled]
      rcases hd.reaped with - | pid
      · rfl
      · rfl
  -- nor does the answer, which only fills the buffer of the connection
  have hpassed : KeepsLinks w w1 := by
    cases hcases with
    | @ends target hend hreg howner =>
        obtain ⟨c, hc, -, rfl⟩ := World.passOn_cases hpass
        refine hdone.trans ?_
        generalize w.cgiHandled id g.fd _ = w2 at hc
        obtain ⟨res, -, hres⟩ := World.notify_eq w2 id g.fd g ans.exitedZero owner target c
        rw [hres]
        have hover : KeepsLinks w2 (w2.handedOver id target (World.outcomeOf g ans.exitedZero)) ∧
            (w2.handedOver id target (World.outcomeOf g ans.exitedZero)).heap target =
              some (.client c) := by
          cases ans.exitedZero with
          | false => exact ⟨.refl _, hc⟩
          | true => exact ⟨.of_heap rfl rfl, hc⟩
        have hput : KeepsLinks (w2.handedOver id target (World.outcomeOf g ans.exitedZero))
            ((w2.handedOver id target (World.outcomeOf g ans.exitedZero)).put target
              (.client (c.answer res owner).client)) :=
          .put hover.2 (fun _ ht => by cases ht) fun _ hchild => hchild
        exact (hover.1.trans hput).perform target c.fd _
    | _ =>
        cases hpass
        exact hdone
  split_ifs
  · exact hpassed.trans (.remove _ id g.fd)
  · exact hpassed

theorem visit_keepsLinks {now : Int} {sends : List (Option Nat)} {date : Option Bytes}
    (hs : w.heap id = some s) : KeepsLinks w (w.visit now fd id s sends date) := by
  by_cases hout : s.isTimeout (now - kRequestTimeout) = true
  · have hnote : KeepsLinks w (w.note (.expired id now)) := .of_heap rfl rfl
    rw [World.visit, if_pos hout]
    dsimp only
    rw [delete_erase]
    cases s with
    | server s => exact hnote.trans (.remove _ id fd)
    | cgi g => exact hnote.trans (.remove _ id fd)
    | client c =>
        have hclient : (c.handleTimeout sends date).client.cgiSocket = c.cgiSocket := by
          obtain ⟨res, -, hres⟩ := ClientSocket.handleTimeout_eq c sends date
          rw [hres]
        have hput : KeepsLinks (w.note (.expired id now))
            ((w.note (.expired id now)).put id (.client (c.handleTimeout sends date).client)) :=
          .put hs (fun _ ht => by cases ht) fun g hg => hclient.trans hg
        exact ((hnote.trans hput).perform id c.fd (c.handleTimeout sends date).actions).trans
          (.remove _ id fd)
  · rw [World.visit, if_neg hout]
    exact .refl w

/-- **No step** unlinks two objects that live on. -/
theorem turned_keepsLinks {l : Label} (hw : LoopInv w)
    (hdone : ∀ id c, w.heap id = some (.client c) → c.req.state ≠ .kDone → c.cgiSocket = none)
    (h : World.Turned w l w') : KeepsLinks w w' := by
  have hclear : ∀ {w1 : World}, TableInv w1 → w.nextId ≤ w1.nextId → KeepsLinks w w1.clearResources := by
    intro w1 hw1 hnext
    have hnone := (clearResources_tableInv hw1).2
    refine ⟨?_, fun id _ _ => hnone id, fun g _ _ _ hg => absurd (hnone g) hg,
      fun c _ _ _ _ hc => absurd (hnone c) hc⟩
    rw [World.nextId_clearResources]
    exact hnext
  cases h with
  | openFails => exact hclear hw.toTableInv le_rfl
  | opens hc hfd =>
      exact (KeepsLinks.of_heap (w := w) rfl rfl).trans ((KeepsLinks.insert _ _).trans (.of_heap rfl rfl))
  | unregistered hc hfd =>
      exact hclear (opened_tableInv hw.toTableInv hfd) (Nat.le_succ _)
  | @visits now fd id entries s sends date hc hs =>
      have hvisit := @visit_keepsLinks w id s fd now sends date hs
      exact hvisit.trans (.of_heap rfl rfl)
  | @handles time id events rest s l w1 hc hs h =>
      have hnote : KeepsLinks w (w.note (.dispatched id time)) := .of_heap rfl rfl
      have hturn : KeepsLinks (w.note (.dispatched id time)) w1 := by
        cases h with
        | server h =>
            cases h with
            | nothing => exact .refl _
            | closed => exact .of_heap rfl rfl
            | @accepts fd ip hfd =>
                have hopen : KeepsLinks (w.note (.dispatched id time))
                    { w.note (.dispatched id time) with
                      kernel := (w.note (.dispatched id time)).kernel.openFd fd } := .of_heap rfl rfl
                exact hopen.trans (.addSocket _ _ _)
        | @client c ans epollAdd h =>
            obtain ⟨hd, -, hhd, rfl⟩ := World.clientEvent_cases h
            have hs1 : (w.note (.dispatched id time)).heap id = some (.client c) := hs
            exact clientHandled_keepsLinks hs1 (hdone id c hs) hhd epollAdd
        | cgi h => exact cgiEvent_keepsLinks hs h
      exact (hnote.trans hturn).trans (.of_heap rfl rfl)
  | clears => exact hclear hw.toTableInv le_rfl
  | sweeps | waits | reports | forks | closes | exits => exact .of_heap rfl rfl

end Links

/-! ### The end of a program -/

/-- While the loop runs, the connection waits to send. -/
def Sends (w : World) (id : SocketId) : Prop := w.control ≠ .ended → WaitsOut w.kernel id

section Ends

variable {w w' : World} {id gid : SocketId} {l : Label}

theorem Sends.turned (h : Sends w id) (hloop : LoopInv w) (hw : EpollInv w) (hlt : id < w.nextId)
    (hturn : World.Turned w l w') : Sends w' id := fun hended =>
  (h fun hold => hended (turned_ended hturn hold)).continues
    (turned_listed hloop hw.listed hturn hended).2 hlt

/-- **The owner** that is told waits to send. -/
theorem notify_waitsOut {fd : Fd} {g : CgiSocket} {exitedZero : Bool} {ans : ClientSocket.CgiAnswers}
    {c : ClientSocket} (hw : Listed w) (hc : w.heap id = some (.client c)) (hmod : ans.epollMod = true) :
    WaitsOut (w.notify gid fd (World.outcomeOf g exitedZero) ans id c).kernel id := by
  obtain ⟨res, -, hres⟩ := World.notify_eq w gid fd g exitedZero ans id c
  have hself : w.fdOf id = some c.fd := by
    rw [World.fdOf, hc]
    rfl
  have hacts : (c.answer res ans).actions = [.epollMod EPOLLOUT] := by
    rw [ClientSocket.answer]
    exact if_pos hmod
  have hkernel : (w.notify gid fd (World.outcomeOf g exitedZero) ans id c).kernel =
      [.epollMod EPOLLOUT].foldl (Action.perform id c.fd) w.kernel := by
    rw [hres, ← hacts]
    cases exitedZero with
    | false => rfl
    | true => rfl
  have hkeeps : ∀ a ∈ [Action.epollMod EPOLLOUT], a.keepsFiles = true := fun a ha => by
    rw [List.mem_singleton.mp ha]
    rfl
  have hmods : ∀ interest, .epollMod interest ∈ [Action.epollMod EPOLLOUT] → interest = EPOLLOUT :=
    fun interest hmem => Action.epollMod.inj (List.mem_singleton.mp hmem)
  have hperformed := performs_registered hw.registered hself (fun p hp => hw.fdOf_inj hself hp) hkeeps
    hmods
  rw [hkernel]
  exact hperformed.waitsOut (List.mem_singleton.mpr rfl)

/-- **A program that is at its end** has its owner told, if it has one. -/
theorem cgiEvent_tells {g : CgiSocket} {events : Events} {ans : CgiSocket.Answers}
    {owner : ClientSocket.CgiAnswers} (hw : Listed w) (hg : w.heap gid = some (.cgi g))
    (howner : g.owner = some id) (h : w.cgiEvent gid g events ans owner = some w')
    (hreg : ans.registered = true) (hmod : owner.epollMod = true)
    (hfits : g.readBuffer.length + ((ans.read.getD []).take kBufferSize).length ≤ stringMaxSize)
    (hgone : w'.heap gid = none) : WaitsOut w'.kernel id := by
  obtain ⟨hd, w1, -, hcases, hpass, rfl⟩ := World.cgiEvent_cases h
  have hself : w.fdOf gid = some g.fd := by
    rw [World.fdOf, hg]
    rfl
  have hstays : (w.cgiHandled gid g.fd hd).heap gid ≠ none := by
    rw [(cgiHandled_objects w gid g.fd hd).2, Function.update_self]
    exact Option.some_ne_none _
  obtain ⟨hdone, -, hsame, -⟩ := cgiHandled_listed hw hg hcases
  cases hcases with
  | nothing | reads =>
      cases hpass
      exact absurd hgone hstays
  | overflows hin hdata hlt =>
      obtain ⟨b, bs, hread, rfl⟩ := hdata
      rw [hread, Option.getD_some] at hfits
      rw [List.length_append] at hlt
      exact absurd hfits (not_le.mpr hlt)
  | unregistered hend hreg' =>
      rw [hreg] at hreg'
      cases hreg'
  | orphan hend hreg' howner' =>
      rw [howner] at howner'
      cases howner'
  | ends hend hreg' howner' =>
      rw [howner] at howner'
      cases howner'
      obtain ⟨c, hc, -, rfl⟩ := World.passOn_cases hpass
      have hout := @notify_waitsOut _ _ gid g.fd g ans.exitedZero owner c hdone hc hmod
      obtain ⟨hlisted, -, hsame'⟩ := @notify_listed _ gid g.fd g ans.exitedZero owner id c hdone hc
      obtain ⟨-, hcont⟩ := hlisted.remove ((hsame'.fdOf gid).trans ((hsame.fdOf gid).trans hself))
      refine hout.continues hcont ?_
      rw [hsame'.nextId]
      exact hdone.toTableInv.lt hc

/-- **A CGI socket that has an owner goes** when its program has ended, or in a sweep that finds
it overdue. -/
theorem turned_orphans (hloop : LoopInv w) (hw : EpollInv w) (hctl : l.ctlSucceeds = true)
    (houtput : w.outputFits l = true) (hturn : World.Turned w l w') {g : CgiSocket}
    (hg : w.heap gid = some (.cgi g)) (howner : g.owner = some id) (hgone : w'.heap gid = none)
    (halive : w'.heap id ≠ none) : Sends w' id ∨ ∃ now fd entries,
      w.control = .sweeping now ((fd, gid) :: entries) ∧ (Socket.cgi g).IsOverdue now := by
  have hcleared : ∀ {w1 : World}, TableInv w1 → w1.clearResources.heap id ≠ none → False :=
    fun hw1 hid => hid ((clearResources_tableInv hw1).2 id)
  have hcore : w.coreOf gid = some (Socket.cgi g).core := World.coreOf_of hg
  have hcore' := World.coreOf_eq_none.mpr hgone
  have hsame : w'.coreOf gid = w.coreOf gid → False := fun heq => by
    rw [heq, hcore] at hcore'
    cases hcore'
  have hlt : gid < w.nextId := hloop.lt hg
  cases hturn with
  | openFails => exact (hcleared hloop.toTableInv halive).elim
  | opens hc hfd => exact (hsame (congrFun (World.coreOf_insert _ _) gid |>.trans (Function.update_of_ne hlt.ne _ _))).elim
  | unregistered hc hfd => exact (hcleared (opened_tableInv hloop.toTableInv hfd) halive).elim
  -- the sweep deletes the program that is overdue, and tells nobody
  | @visits now fd id' entries s sends date hc hs =>
      have hvisit := @visit_coreOf w id' gid now fd s (Socket.cgi g).core hs sends date
      have hgone' : ¬ (w.visit now fd id' s sends date).coreOf gid = some (Socket.cgi g).core := by
        intro heq
        rw [show (w.visit now fd id' s sends date).coreOf gid = none from hcore'] at heq
        cases heq
      rw [hvisit, not_and_not_right] at hgone'
      obtain ⟨rfl, hout⟩ := hgone' hcore
      exact .inr ⟨now, fd, entries, hc, Socket.isOverdue_core.mp hout⟩
  | @handles time id' events rest s l w1 hc hs h =>
      have hs1 : (w.note (.dispatched id' time)).heap id' = some s := hs
      have hlisted : Listed (w.note (.dispatched id' time)) := by
        refine ((hw.listed ?_).of_kernel (note_same rfl) rfl).1
        rw [hc]
        exact Control.noConfusion
      by_cases hid : gid = id'
      · subst hid
        rw [hg] at hs
        cases hs
        cases h with
        | @cgi _ ans owner h =>
            obtain ⟨hreg, hmod⟩ := Bool.and_eq_true_iff.mp hctl
            have hfits : g.readBuffer.length + ((ans.read.getD []).take kBufferSize).length ≤
                stringMaxSize := by
              rw [World.outputFits, hc] at houtput
              have houtput : (w.heap gid).all _ = true := houtput
              rw [hg] at houtput
              exact of_decide_eq_true houtput
            have hout : WaitsOut w1.kernel id :=
              cgiEvent_tells hlisted hs1 howner h hreg hmod hfits hgone
            exact .inl fun _ => hout
      · -- an event removes its own socket only
        have hfd : w1.fdOf gid = w.fdOf gid := (handles_listed hlisted hs1 h).others gid hid hlt
        have hgone1 : w1.heap gid = none := hgone
        rw [World.fdOf, World.fdOf, hgone1, hg] at hfd
        cases hfd
  | clears => exact (hcleared hloop.toTableInv halive).elim
  | sweeps | waits | reports | forks | closes | exits => exact (hsame rfl).elim

end Ends

/-! ### Sweeps -/

/-- What a sweep has passed is not overdue. -/
def Swept (w : World) : Prop :=
  ∀ now entries, w.control = .sweeping now entries → ∀ id s, w.coreOf id = some s →
    id ∉ entries.map Prod.snd → ¬ s.IsOverdue now

theorem nextTurn_sweeping {now now' : Int} {entries entries' : List (Fd × SocketId)}
    (h : World.nextTurn (.sweeping now) .waiting entries = .sweeping now' entries') :
    now = now' ∧ entries = entries' := by
  cases entries with
  | nil => cases h
  | cons =>
      cases h
      exact ⟨rfl, rfl⟩

theorem nextTurn_ne_sweeping {α : Type} {again : List α → Control} {done : Control} {xs : List α}
    {now : Int} {entries : List (Fd × SocketId)} (hagain : ∀ xs, again xs ≠ .sweeping now entries)
    (hdone : done ≠ .sweeping now entries) : World.nextTurn again done xs ≠ .sweeping now entries := by
  cases xs with
  | nil => exact hdone
  | cons x xs => exact hagain _

section Sweeps

variable {w w' : World} {id : SocketId} {l : Label} {now : Int} {entries : List (Fd × SocketId)}
  {s : Socket}

theorem turned_swept (hloop : LoopInv w) (h : Swept w) (hturn : World.Turned w l w') : Swept w' := by
  intro now entries hc' id s hs hmem
  cases hturn with
  | openFails | unregistered | waits | clears => cases hc'
  | opens | reports | handles =>
      exact absurd hc' (nextTurn_ne_sweeping (fun _ => Control.noConfusion) Control.noConfusion)
  | sweeps =>
      obtain ⟨-, rfl⟩ := nextTurn_sweeping hc'
      -- every socket that is alive has an entry
      have hs : w.coreOf id = some s := hs
      have hentry := (hloop.toTableInv.remaining.mem _ _).mpr (fdOf_of_core hs)
      exact absurd (List.mem_map.mpr ⟨_, hentry, rfl⟩) hmem
  | @visits _ fd id' _ s' sends date hc hs' =>
      obtain ⟨rfl, rfl⟩ := nextTurn_sweeping hc'
      obtain ⟨hold, hout⟩ := (visit_coreOf hs' sends date).mp hs
      by_cases hid : id = id'
      · exact fun hover => hout ⟨hid, hover⟩
      · refine h _ _ hc id s hold ?_
        rw [List.map_cons, List.mem_cons, not_or]
        exact ⟨hid, hmem⟩
  | forks | closes | exits => exact h now entries hc' id s hs hmem

/-- A sweep that has an overdue socket to visit has not ended. -/
theorem turned_sweeping (hturn : World.Turned w l w') (hloop : LoopInv w)
    (hc : w.control = .sweeping now entries)
    (hmem : id ∈ entries.map Prod.snd) (hs : w'.coreOf id = some s) (hout : s.IsOverdue now) :
    ∃ entries', w'.control = .sweeping now entries' ∧ id ∈ entries'.map Prod.snd := by
  cases hturn with
  | openFails hc' | opens hc' | sweeps hc' | waits hc' | reports hc' | handles hc' | unregistered hc' =>
      rw [hc] at hc'
      cases hc'
  | clears =>
      rw [World.coreOf_eq_none.mpr ((clearResources_tableInv hloop.toTableInv).2 id)] at hs
      cases hs
  | @visits _ fd id' rest s' sends date hc' hs' =>
      rw [hc] at hc'
      cases hc'
      obtain ⟨-, hkept⟩ := (visit_coreOf hs' sends date).mp hs
      have hrest : id ∈ rest.map Prod.snd :=
        (List.mem_cons.mp hmem).resolve_left fun hid => hkept ⟨hid, hout⟩
      refine ⟨rest, ?_, hrest⟩
      rcases rest with - | ⟨entry, rest⟩
      · cases hrest
      · rfl
  | forks | closes | exits => exact ⟨entries, hc, hmem⟩

end Sweeps

/-! ### Who sees to a connection -/

/-- **Somebody sees to a connection whose request is done**: it waits to send, it has a CGI
socket that is not older than its own last event, or it is in the way of the sweep. -/
inductive Attends (w : World) (id : SocketId) (c : ClientSocket) : Prop
  | sends (h : Sends w id)
  | program {g : SocketId} {time : Int} (hchild : w.childOf id = some g)
      (htime : w.cgiTimeOf g = some time) (hle : c.lastActivityTime ≤ time)
  | overdue {now : Int} {entries : List (Fd × SocketId)} (hc : w.control = .sweeping now entries)
      (hmem : id ∈ entries.map Prod.snd) (hout : (Socket.client c).IsOverdue now)

/-- No connection has been forgotten. -/
def NoneForgotten (w : World) : Prop :=
  ∀ id c, w.coreOf id = some (.client c) → c.req.state = .kDone → c.writeBuffer ≠ [] ∧ Attends w id c

section Steps

variable {w w' : World} {id gid : SocketId} {l : Label} {c : ClientSocket}

/-- **A step that leaves the connection as it is.** -/
theorem Attends.turned (h : Attends w id c) (hloop : LoopInv w) (hepoll : EpollInv w)
    (hlink : w.IsLinked) (hkeeps : KeepsLinks w w') (hswept : Swept w) (hl : Orderly w l)
    (hturn : World.Turned w l w') (hs : w.coreOf id = some (.client c))
    (hs' : w'.coreOf id = some (.client c)) : Attends w' id c := by
  have hlt : ∀ {x : SocketId}, w.heap x ≠ none → x < w.nextId := fun hx => by
    obtain ⟨s, hs⟩ := Option.ne_none_iff_exists'.mp hx
    exact hloop.lt hs
  have hid : w.heap id ≠ none := fun hnone => by
    rw [World.coreOf_eq_none.mpr hnone] at hs
    cases hs
  have hid' : w'.heap id ≠ none := fun hnone => by
    rw [World.coreOf_eq_none.mpr hnone] at hs'
    cases hs'
  cases h with
  | sends h => exact .sends (h.turned hloop hepoll (hlt hid) hturn)
  | overdue hc hmem hout =>
      obtain ⟨entries', hc', hmem'⟩ := turned_sweeping hturn hloop hc hmem hs' hout
      exact .overdue hc' hmem' hout
  | @program g time hchild htime hle =>
      have howner : w.ownerOf g = some id := (hlink id g).mp hchild
      obtain ⟨t, hg, howner⟩ := Option.bind_eq_some_iff.mp howner
      cases t with
      | server => cases howner
      | client => cases howner
      | cgi t =>
          -- the program goes on, or its end is told to the connection
          by_cases hgone : w'.heap g = none
          · obtain hsends | ⟨now, fd, entries, hc, hout⟩ :=
              turned_orphans hloop hepoll hl.ctl hl.output hturn hg howner hgone hid'
            · exact .sends hsends
            · -- the owner has been idle for longer
              have htime' : t.lastActivityTime = time := by
                rw [World.cgiTimeOf, hg] at htime
                exact Option.some.inj htime
              have hover : (Socket.client c).IsOverdue now := by
                have hlt : t.lastActivityTime < now - kRequestTimeout := of_decide_eq_true hout
                exact decide_eq_true ((hle.trans htime'.ge).trans_lt hlt)
              have hmem : id ∈ ((fd, g) :: entries).map Prod.snd := by
                by_contra hmem
                exact hswept now _ hc id _ hs hmem hover
              obtain ⟨entries', hc', hmem'⟩ := turned_sweeping hturn hloop hc hmem hs' hover
              exact .overdue hc' hmem' hover
          · have hglt : g < w.nextId := hloop.lt hg
            exact .program (hkeeps.links id g (hlt hid) hglt hchild hid' hgone)
              (hkeeps.time g time hglt htime hgone) hle

/-- **A request that starts a program**: its connection points at the new CGI socket. -/
theorem turned_started {events : Events} {rest : List (SocketId × Events)} {time : Int}
    {ans : ClientSocket.Answers} {hd : ClientSocket.Handled} {g : CgiSocket} (hloop : LoopInv w)
    (hturn : World.Turned w l w') (hl : l = .clientEvent time ans true)
    (hc : w.control = .handling ((id, events) :: rest)) (hs : w.heap id = some (.client c))
    (hh : c.handleEvent id w.nextId events ans = some hd) (hkept : hd.removeSocket = false)
    (hnew : hd.newSocket = some g) :
    w'.childOf id = some w.nextId ∧ w'.cgiTimeOf w.nextId = some g.lastActivityTime := by
  have hchild : hd.client.cgiSocket = some w.nextId := by
    obtain ⟨hnone, -⟩ | ⟨-, -, -, hchild, -⟩ := handleEvent_child hh
    · rw [hnew] at hnone
      cases hnone
    · exact hchild
  have hne : id ≠ w.nextId := (hloop.lt hs).ne
  subst hl
  cases hturn with
  | @handles _ id' events' rest' s _ w1 hc' hs' h =>
      rw [hc] at hc'
      cases hc'
      rw [hs] at hs'
      cases hs'
      cases h with
      | client h =>
          obtain ⟨hd', -, hhd', rfl⟩ := World.clientEvent_cases h
          have hhd : c.handleEvent id w.nextId events ans = some hd' := hhd'
          rw [hh] at hhd
          cases hhd
          -- the new object stands at the next address, and both pointers are set
          have hheap : ((w.note (.dispatched id time)).clientHandled id c.fd hd true).heap =
              Function.update (Function.update w.heap id (some (.client hd.client))) w.nextId
                (some (.cgi g)) := by
            rw [World.clientHandled, hkept, hnew]
            rfl
          constructor
          · show (((w.note (.dispatched id time)).clientHandled id c.fd hd true).heap id).bind
              Socket.cgiSocket = _
            rw [hheap, Function.update_of_ne hne, Function.update_self]
            exact hchild
          · show (((w.note (.dispatched id time)).clientHandled id c.fd hd true).heap w.nextId).bind
              Socket.cgiTime = _
            rw [hheap, Function.update_self]
            rfl

/-- The end of the output. -/
theorem handleEvent_finishes {g : CgiSocket} {events : Events} {ans : CgiSocket.Answers}
    (hend : World.CgiEnds events ans) : g.handleEvent events ans = g.finish ans := by
  rw [CgiSocket.handleEvent, if_pos hend.1]
  rcases hread : ans.read with - | - | ⟨b, bs⟩
  · rfl
  · rfl
  · have hnil := hend.2
    rw [hread] at hnil
    cases hnil

/-- A CGI socket whose program has ended is removed. -/
theorem turned_cgiEnds {g : CgiSocket} {events : Events} {rest : List (SocketId × Events)} {time : Int}
    {ans : CgiSocket.Answers} {owner : ClientSocket.CgiAnswers} (hturn : World.Turned w l w')
    (hl : l = .cgiEvent time ans owner) (hc : w.control = .handling ((gid, events) :: rest))
    (hg : w.heap gid = some (.cgi g)) (hend : World.CgiEnds events ans) : w'.heap gid = none := by
  subst hl
  cases hturn with
  | @handles _ id' events' rest' s _ w1 hc' hs' h =>
      rw [hc] at hc'
      cases hc'
      rw [hg] at hs'
      cases hs'
      cases h with
      | cgi h =>
          rw [World.cgiEvent] at h
          split_ifs at h
          obtain ⟨w2, -, rfl⟩ := Option.map_eq_some_iff.mp h
          rw [handleEvent_finishes hend]
          show (w2.remove gid g.fd).heap gid = none
          rw [← World.coreOf_eq_none, World.coreOf_remove, Function.update_self]

/-- **The end of a program** that has an owner. -/
theorem cgiEvent_ends {g : CgiSocket} {events : Events} {ans : CgiSocket.Answers}
    {cans : ClientSocket.CgiAnswers} (hend : World.CgiEnds events ans) (hreg : ans.registered = true)
    (howner : g.owner = some id) (h : w.cgiEvent gid g events ans cans = some w') :
    ∃ hd c, World.CgiCases g events ans hd ∧ (w.cgiHandled gid g.fd hd).heap id = some (.client c) ∧
      w' = ((w.cgiHandled gid g.fd hd).notify gid g.fd (World.outcomeOf g ans.exitedZero) cans id
        c).remove gid g.fd := by
  have htold : g.finish ans =
      { cgi := { g with pid := none }, actions := [.epollDel], reaped := g.pid
        notify := some (id, World.outcomeOf g ans.exitedZero)
        removeSocket := true } := by
    simp only [CgiSocket.finish, hreg, howner]
    rfl
  rw [World.cgiEvent] at h
  split_ifs at h
  obtain ⟨w1, hpass, rfl⟩ := Option.map_eq_some_iff.mp h
  rw [handleEvent_finishes hend, htold] at hpass ⊢
  obtain ⟨c, hc, -, rfl⟩ := World.passOn_cases hpass
  exact ⟨_, c, .ends hend hreg howner, hc, rfl⟩

/-- The output of a program that has exited with 0 is handed over. -/
theorem turned_handsOver {g : CgiSocket} {events : Events} {rest : List (SocketId × Events)}
    {time : Int} {ans : CgiSocket.Answers} {owner : ClientSocket.CgiAnswers}
    (hturn : World.Turned w l w') (hl : l = .cgiEvent time ans owner)
    (hc : w.control = .handling ((gid, events) :: rest)) (hg : w.heap gid = some (.cgi g))
    (howner : g.owner = some id) (hend : World.CgiEnds events ans) (hreg : ans.registered = true)
    (hzero : ans.exitedZero = true) : .handOver id g.readBuffer ∈ actionsOf w'.log gid := by
  subst hl
  cases hturn with
  | @handles _ id' events' rest' s _ w1 hc' hs' h =>
      rw [hc] at hc'
      cases hc'
      rw [hg] at hs'
      cases hs'
      cases h with
      | cgi h =>
          obtain ⟨hd, c, -, -, rfl⟩ := cgiEvent_ends hend hreg howner h
          generalize (w.note (.dispatched gid time)).cgiHandled gid g.fd hd = w2
          obtain ⟨res, -, hres⟩ := World.notify_eq w2 gid g.fd g ans.exitedZero owner id c
          rw [hzero] at hres ⊢
          have hover : Entry.acted gid (.handOver id g.readBuffer) ∈
              (w2.handedOver gid id (World.outcomeOf g true)).log :=
            List.mem_append_right _ (List.mem_singleton_self _)
          rw [mem_actionsOf]
          show _ ∈ ((w2.notify gid g.fd (World.outcomeOf g true) owner id c).remove gid g.fd).log
          rw [World.log_remove, hres, World.log_perform, World.log_put]
          exact List.mem_append_left _ (List.mem_append_left _ hover)

/-- **No step** forgets a connection. -/
theorem turned_noneForgotten (hw : RunInv w) (hepoll : EpollInv w) (hlink : w.IsLinked)
    (hdone : ∀ id c, w.heap id = some (.client c) → c.req.state ≠ .kDone → c.cgiSocket = none)
    (hswept : Swept w) (hl : Orderly w l) (hturn : World.Turned w l w') (h : NoneForgotten w) :
    NoneForgotten w' := by
  intro id c' hc' hstate
  have hkeeps := turned_keepsLinks hw.toLoopInv hdone hturn
  have hlife : Life w l id (actionsOf w.log id) (w.coreOf id) (actionsOf w'.log id) (w'.coreOf id) :=
    turned_lives hw.toLoopInv hw.silent hturn id
  generalize hs : w.coreOf id = s at hlife
  generalize hs' : w'.coreOf id = s' at hlife hc'
  generalize actionsOf w.log id = acts at hlife
  generalize actionsOf w'.log id = acts' at hlife
  cases hlife with
  | same =>
      rw [hc'] at hs hs'
      obtain ⟨hbuffer, hattends⟩ := h id c' hs hstate
      exact ⟨hbuffer, hattends.turned hw.toLoopInv hepoll hlink hkeeps hswept hl hturn hs hs'⟩
  | gone | opened | started | expired | printed | ended => cases hc'
  | accepted =>
      cases hc'
      cases hstate
  | @event acts c events rest time ans epollAdd hd hc hlabel hheap hh =>
      split_ifs at hc' with hremove
      cases hc'
      obtain ⟨hmod, herror, hadd⟩ := ctlSucceeds_client (hlabel ▸ hl.ctl)
      subst hadd
      have hmem : (id, events) ∈ w.control.events := by
        rw [hc]
        exact List.mem_cons_self
      have hevents : events.epollIn = true ∨ events.epollOut = true := by
        have hhears := hl.events
        rw [hlabel, World.hearsOrSends, hc] at hhears
        exact Bool.or_eq_true_iff.mp hhears
      have hone : events.epollOut = true → events.epollIn = false := fun hout => by
        rcases hin : events.epollIn with - | -
        · rfl
        · exact absurd hout (Bool.eq_false_iff.mp (hepoll.reported.one _ hmem hin))
      have hold : c.req.state = .kDone → c.writeBuffer ≠ [] := fun hdone => (h id _ hs hdone).1
      obtain ⟨hbuffer, hcase⟩ := ClientSocket.handleEvent_answers hh ⟨hmod, herror⟩ hevents hone hold
        (Bool.eq_false_iff.mpr hremove) hstate
      refine ⟨hbuffer, ?_⟩
      obtain hout | hout | ⟨g, hnew, htime⟩ := hcase
      · exact .sends fun hended => (turned_deaf hepoll hturn hlabel hc hheap hh hout hended).1
      · have hsends : Sends w id := fun _ => hepoll.reported.out _ hmem hout
        exact .sends (hsends.turned hw.toLoopInv hepoll (hw.lt hheap) hturn)
      · obtain ⟨hchild, hcgi⟩ := turned_started hw.toLoopInv hturn hlabel hc hheap hh
          (Bool.eq_false_iff.mpr hremove) hnew
        refine .program hchild hcgi ?_
        -- the clock is read for the connection first
        have hclock := hl.clock
        rw [hlabel] at hclock
        have hle : ans.now ≤ ans.sys.now :=
          (List.pairwise_cons.mp (List.pairwise_cons.mp (List.pairwise_cons.mp hclock).2).2).1 _
            (List.mem_singleton.mpr rfl)
        show hd.client.lastActivityTime ≤ g.lastActivityTime
        rw [(ClientSocket.handleEvent_base hh).2.1, htime]
        exact hle
  | @answered acts c g t events rest time ans cans hc hlabel hg howner hend hreg hheap res hres =>
      cases hc'
      refine ⟨res.toHttpString_ne_nil _, ?_⟩
      have hgone := turned_cgiEnds hturn hlabel hc hg hend
      have halive : w'.heap id ≠ none := fun hnone => by
        rw [World.coreOf_eq_none.mpr hnone] at hs'
        cases hs'
      obtain hsends | ⟨now, fd, entries, hsweep, -⟩ :=
        turned_orphans hw.toLoopInv hepoll hl.ctl hl.output hturn hg howner hgone halive
      · exact .sends hsends
      · rw [hc] at hsweep
        cases hsweep

end Steps

end Webserv
