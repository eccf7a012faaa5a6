/-
Webserv/Lives.lean

The life of one socket, as the log and the object itself tell it.

Whatever a step does to the others, a socket is made, handles an event, is told something,
or goes (`Life`).  A property of one connection is proved along its life.
-/
import Webserv.Objects
import Webserv.SocketTable

namespace Webserv

/-! ### Histories -/

/-- What the socket `id` has done. -/
def actionsOf (log : List Entry) (id : SocketId) : List Action :=
  log.filterMap fun entry =>
    match entry with
    | .acted id' action => if id' = id then some action else none
    | _ => none

theorem mem_actionsOf {log : List Entry} {id : SocketId} {action : Action} :
    action ∈ actionsOf log id ↔ Entry.acted id action ∈ log := by
  rw [actionsOf, List.mem_filterMap]
  constructor
  · rintro ⟨entry, hmem, hentry⟩
    cases entry with
    | acted id' action' =>
        dsimp only at hentry
        split_ifs at hentry with hid
        cases hentry
        rw [← hid]
        exact hmem
    | _ => cases hentry
  · intro h
    exact ⟨_, h, if_pos rfl⟩

theorem actionsOf_append (log log' : List Entry) (id : SocketId) :
    actionsOf (log ++ log') id = actionsOf log id ++ actionsOf log' id := List.filterMap_append

theorem actionsOf_acted (actions : List Action) (id id' : SocketId) :
    actionsOf (actions.map (.acted id')) id = if id' = id then actions else [] := by
  rw [actionsOf, List.filterMap_map]
  split_ifs with hid
  · refine Eq.trans (congrArg (List.filterMap · actions) ?_) List.filterMap_some
    funext action
    exact if_pos hid
  · rw [List.filterMap_eq_nil_iff]
    intro action _
    exact if_neg hid

/-- Entries of other kinds are no actions. -/
theorem actionsOf_of_none {log : List Entry} (h : ∀ id action, Entry.acted id action ∉ log)
    (id : SocketId) : actionsOf log id = [] := by
  rw [List.eq_nil_iff_forall_not_mem]
  intro action hmem
  exact h id action (mem_actionsOf.mp hmem)

/-- The socket `id` has done something, and what follows are no actions. -/
theorem actionsOf_did {log log' after : List Entry} {acts : List Action} {id : SocketId}
    (hlog : log' = log ++ (acts.map (.acted id) ++ after))
    (hafter : ∀ id action, Entry.acted id action ∉ after) (id' : SocketId) :
    actionsOf log' id' = actionsOf log id' ++ if id = id' then acts else [] := by
  rw [hlog, actionsOf_append, actionsOf_append, actionsOf_of_none hafter, actionsOf_acted,
    List.append_nil]

/-- What is done to a CGI socket, or by it. -/
def Action.isCgi : Action → Bool
  | .epollDel | .handOver _ _ => true
  | _ => false

/-- **What a step can be for one socket**: what it had done and was, and what it has done
and is. -/
inductive Life (w : World) (l : Label) (id : SocketId) :
    List Action → Option Socket → List Action → Option Socket → Prop
  | same {acts : List Action} {s : Option Socket} : Life w l id acts s acts s
  | gone {acts : List Action} {s : Option Socket} : Life w l id acts s acts none
  | opened (hid : id = w.nextId) (s : ServerSocket) : Life w l id [] none [] (some (.server s))
  | accepted (hid : id = w.nextId) (s : ServerSocket) (fd : Fd) (ip : UInt32) (now : Int) :
      Life w l id [] none [] (some (.client (World.accepted s fd ip now)))
  | started {g : CgiSocket} {time : Int} {ans : ClientSocket.Answers} (hid : id = w.nextId)
      (hl : l = .clientEvent time ans true) (hread : g.readBuffer = []) (hwrite : g.writeBuffer = []) :
      Life w l id [] none [] (some (Socket.cgi g).core)
  | event {acts : List Action} {c : ClientSocket} {events : Events}
      {rest : List (SocketId × Events)} {time : Int} {ans : ClientSocket.Answers} {epollAdd : Bool}
      {hd : ClientSocket.Handled} (hc : w.control = .handling ((id, events) :: rest))
      (hl : l = .clientEvent time ans epollAdd) (hs : w.heap id = some (.client c))
      (hh : c.handleEvent id w.nextId events ans = some hd) :
      Life w l id acts (some (Socket.client c).core) (acts ++ hd.actions)
        (if hd.removeSocket then none else some (Socket.client hd.client).core)
  | answered {acts : List Action} {c : ClientSocket} {g : SocketId} {s : CgiSocket}
      {events : Events} {rest : List (SocketId × Events)} {time : Int} {ans : CgiSocket.Answers}
      {cans : ClientSocket.CgiAnswers} (hc : w.control = .handling ((g, events) :: rest))
      (hl : l = .cgiEvent time ans cans) (hg : w.heap g = some (.cgi s))
      (howner : s.owner = some id) (hend : World.CgiEnds events ans) (hreg : ans.registered = true)
      (hs : w.heap id = some (.client c)) {res : HttpResponse}
      (hres : res.HasVersion ∧ res.toHttpString cans.date = s.reply ans.exitedZero cans.date) :
      Life w l id acts (some (Socket.client c).core) (acts ++ (c.answer res cans).actions)
        (some (Socket.client (c.answer res cans).client).core)
  | expired {acts : List Action} {c : ClientSocket} {now : Int} {fd : Fd}
      {entries : List (Fd × SocketId)} {sends : List (Option Nat)} {date : Option Bytes}
      (hc : w.control = .sweeping now ((fd, id) :: entries)) (hl : l = .visit sends date)
      (hs : w.heap id = some (.client c)) (hout : c.isTimeout (now - kRequestTimeout) = true) :
      Life w l id acts (some (Socket.client c).core) (acts ++ (c.handleTimeout sends date).actions)
        none
  | printed {acts acts' : List Action} {g g' : CgiSocket} (hwrite : g'.writeBuffer = g.writeBuffer)
      (hacts : ∀ a ∈ acts', a.isCgi = true) :
      Life w l id acts (some (Socket.cgi g).core) (acts ++ acts') (some (Socket.cgi g').core)
  | ended {acts acts' : List Action} (g : CgiSocket) (hacts : ∀ a ∈ acts', a.isCgi = true) :
      Life w l id acts (some (Socket.cgi g).core) (acts ++ acts') none

/-- What a step works on, of a world. -/
theorem Life.of_eq {w w1 : World} {l : Label} {id : SocketId} {acts acts' : List Action}
    {s s' : Option Socket} (hcontrol : w.control = w1.control) (hheap : w.heap = w1.heap)
    (hnext : w.nextId = w1.nextId) (h : Life w1 l id acts s acts' s') : Life w l id acts s acts' s' := by
  cases h with
  | same => exact .same
  | gone => exact .gone
  | opened hid s => exact .opened (hid.trans hnext.symm) s
  | accepted hid s fd ip now => exact .accepted (hid.trans hnext.symm) s fd ip now
  | started hid hl hread hwrite => exact .started (hid.trans hnext.symm) hl hread hwrite
  | event hc hl hs hh =>
      rw [← hnext] at hh
      exact .event (hcontrol.trans hc) hl ((congrFun hheap id).trans hs) hh
  | answered hc hl hg howner hend hreg hs hres =>
      exact .answered (hcontrol.trans hc) hl ((congrFun hheap _).trans hg) howner hend hreg
        ((congrFun hheap id).trans hs) hres
  | expired hc hl hs hout =>
      exact .expired (hcontrol.trans hc) hl ((congrFun hheap id).trans hs) hout
  | printed hwrite hacts => exact .printed hwrite hacts
  | ended g hacts => exact .ended g hacts

namespace World

/-- A socket that has not been made has done nothing. -/
def Silent (w : World) : Prop := ∀ id, w.nextId ≤ id → actionsOf w.log id = []

/-- The step is one in the life of the socket `id`. -/
abbrev Lives (w : World) (l : Label) (w' : World) (id : SocketId) : Prop :=
  Life w l id (actionsOf w.log id) (w.coreOf id) (actionsOf w'.log id) (w'.coreOf id)

end World

section Steps

variable {w w' : World} {l : Label} {id id' : SocketId}

/-- Nothing that concerns a socket has happened. -/
theorem lives_same {entries : List Entry} (hlog : w'.log = w.log ++ entries)
    (hentries : ∀ id action, Entry.acted id action ∉ entries) (hcore : w'.coreOf = w.coreOf)
    (id : SocketId) : w.Lives l w' id := by
  rw [World.Lives, hlog, hcore, actionsOf_append, actionsOf_of_none hentries, List.append_nil]
  exact .same

theorem lives_of_eq (hlog : w'.log = w.log) (hheap : w'.heap = w.heap) (id : SocketId) :
    w.Lives l w' id := by
  apply @lives_same w w' l []
  · rw [hlog, List.append_nil]
  · exact fun _ _ => List.not_mem_nil
  · funext id
    rw [World.coreOf, World.coreOf, hheap]

/-- The socket that is opened, accepted or started: the next one. -/
theorem lives_new {s : Option Socket} {entries : List Entry} (hw : LoopInv w) (hsilent : w.Silent)
    (hlog : w'.log = w.log ++ entries) (hentries : ∀ id action, Entry.acted id action ∉ entries)
    (hcore : w'.coreOf = Function.update w.coreOf w.nextId s)
    (hborn : Life w l w.nextId [] none [] s) (id : SocketId) : w.Lives l w' id := by
  have hacts : actionsOf w'.log id = actionsOf w.log id := by
    rw [hlog, actionsOf_append, actionsOf_of_none hentries, List.append_nil]
  rw [World.Lives, hacts, hcore]
  by_cases hid : id = w.nextId
  · rw [hid, hsilent _ le_rfl, World.coreOf_eq_none.mpr (hw.fresh _ le_rfl), Function.update_self]
    exact hborn
  · rw [Function.update_of_ne hid]
    exact .same

/-- One socket, that is alive, has done something. -/
theorem lives_one {acts : List Action} {s : Option Socket}
    (hacts : ∀ id', actionsOf w'.log id' = actionsOf w.log id' ++ if id = id' then acts else [])
    (hcore : w'.coreOf = Function.update w.coreOf id s)
    (hlife : Life w l id (actionsOf w.log id) (w.coreOf id) (actionsOf w.log id ++ acts) s)
    (id' : SocketId) : w.Lives l w' id' := by
  rw [World.Lives, hacts, hcore]
  by_cases hid : id = id'
  · subst hid
    rw [if_pos rfl, Function.update_self]
    exact hlife
  · rw [if_neg hid, List.append_nil, Function.update_of_ne (Ne.symm hid)]
    exact .same

theorem clearResources_acts (w : World) (id : SocketId) :
    actionsOf w.clearResources.log id = actionsOf w.log id := by
  obtain ⟨⟨ids, hlog⟩, -⟩ := World.clearResources_objects w
  have hnone : ∀ id action, Entry.acted id action ∉ ids.map Entry.deleted := by
    intro id action hmem
    obtain ⟨_, -, hentry⟩ := List.mem_map.mp hmem
    cases hentry
  rw [hlog, actionsOf_append, actionsOf_of_none hnone, List.append_nil]

theorem clearResources_lives (hw : TableInv w) (id : SocketId) : w.Lives l w.clearResources id := by
  have hnone : w.clearResources.coreOf id = none :=
    World.coreOf_eq_none.mpr ((clearResources_tableInv hw).2 id)
  rw [World.Lives, clearResources_acts, hnone]
  exact .gone

theorem addSocket_lives {s : Socket} (hw : LoopInv w) (hsilent : w.Silent) (epollAdd : Bool)
    (hborn : Life w l w.nextId [] none [] (some s.core)) (id : SocketId) :
    w.Lives l (w.addSocket s epollAdd) id := by
  refine lives_new hw hsilent (World.log_addSocket w s epollAdd)
    (fun _ _ => World.acted_not_mem_addedEntries) (World.coreOf_addSocket w s epollAdd) ?_ id
  cases epollAdd with
  | true => exact hborn
  | false => exact .same

theorem serverTurn_lives {s : ServerSocket} {ans : ServerSocket.Answers} {epollAdd : Bool}
    (hw : LoopInv w) (hsilent : w.Silent) (h : World.ServerTurn w s ans epollAdd w')
    (id : SocketId) : w.Lives l w' id := by
  cases h with
  | nothing => exact .same
  | closed => exact lives_of_eq rfl rfl id
  | @accepts fd ip hfd =>
      have hopened : LoopInv { w with kernel := w.kernel.openFd fd } := by
        apply hw.setKernel
        intro fd' hopen
        exact Epoll.Kernel.isOpen_openFd.mpr (.inr hopen)
      have hborn : Life { w with kernel := w.kernel.openFd fd } l w.nextId [] none []
          (some (Socket.client (World.accepted s fd ip ans.now)).core) :=
        .accepted rfl s fd ip ans.now
      refine Life.of_eq ?_ ?_ ?_ (addSocket_lives hopened hsilent epollAdd hborn id)
      · rfl
      · rfl
      · rfl

/-- What an event for a connection adds to the log. -/
theorem clientHandled_log (w : World) (id : SocketId) (fd : Fd) (hd : ClientSocket.Handled)
    (epollAdd : Bool) : ∃ after, (w.clientHandled id fd hd epollAdd).log =
      w.log ++ (hd.actions.map (.acted id) ++ after) ∧ ∀ id action, Entry.acted id action ∉ after := by
  have hadd : ∃ after, ((((w.put id (.client hd.client)).perform id fd hd.actions).addNewSocket
      hd.newSocket epollAdd).log = w.log ++ (hd.actions.map (.acted id) ++ after)) ∧
      ∀ id action, Entry.acted id action ∉ after := by
    rcases hd.newSocket with - | g
    · refine ⟨[], ?_, fun _ _ => List.not_mem_nil⟩
      rw [List.append_nil]
      rfl
    · refine ⟨((w.put id (.client hd.client)).perform id fd hd.actions).addedEntries (.cgi g) epollAdd,
        ?_, fun _ _ => World.acted_not_mem_addedEntries⟩
      refine (World.log_addSocket _ (.cgi g) epollAdd).trans ?_
      rw [World.log_perform, World.log_put, List.append_assoc]
  obtain ⟨after, hlog, hafter⟩ := hadd
  rw [World.clientHandled]
  split_ifs
  · refine ⟨after ++ [.deleted id], ?_, ?_⟩
    · rw [World.log_remove, hlog]
      simp only [List.append_assoc]
    · intro id' action hmem
      obtain hmem | hmem := List.mem_append.mp hmem
      · exact hafter id' action hmem
      · cases List.mem_singleton.mp hmem
  · exact ⟨after, hlog, hafter⟩

/-- What it makes of the objects. -/
theorem clientHandled_core {fd : Fd} {hd : ClientSocket.Handled} {epollAdd : Bool}
    (hid : id ≠ w.nextId) :
    (w.clientHandled id fd hd epollAdd).coreOf id =
        (if hd.removeSocket then none else some (Socket.client hd.client).core) ∧
      ∀ id', id' ≠ id → (w.clientHandled id fd hd epollAdd).coreOf id' =
        if id' = w.nextId then
          hd.newSocket.elim (w.coreOf w.nextId) fun g =>
            if epollAdd then some (Socket.cgi g).core else none
        else w.coreOf id' := by
  -- the new object is added before the connection goes
  have hadd : (((w.put id (.client hd.client)).perform id fd hd.actions).addNewSocket hd.newSocket
        epollAdd).coreOf id = some (Socket.client hd.client).core ∧
      ∀ id', id' ≠ id → (((w.put id (.client hd.client)).perform id fd hd.actions).addNewSocket
        hd.newSocket epollAdd).coreOf id' =
        if id' = w.nextId then
          hd.newSocket.elim (w.coreOf w.nextId) fun g =>
            if epollAdd then some (Socket.cgi g).core else none
        else w.coreOf id' := by
    have hput : ((w.put id (.client hd.client)).perform id fd hd.actions).coreOf =
        Function.update w.coreOf id (some (Socket.client hd.client).core) := World.coreOf_put _ _ _
    rcases hd.newSocket with - | g
    · show ((w.put id (.client hd.client)).perform id fd hd.actions).coreOf id = _ ∧
        ∀ id', id' ≠ id → ((w.put id (.client hd.client)).perform id fd hd.actions).coreOf id' = _
      rw [hput]
      refine ⟨Function.update_self _ _ _, fun id' hne => ?_⟩
      rw [Function.update_of_ne hne]
      by_cases hnew : id' = w.nextId
      · rw [if_pos hnew, hnew]
        rfl
      · rw [if_neg hnew]
    · have hall : (((w.put id (.client hd.client)).perform id fd hd.actions).addNewSocket (some g)
          epollAdd).coreOf = Function.update
            (Function.update w.coreOf id (some (Socket.client hd.client).core)) w.nextId
            (if epollAdd then some (Socket.cgi g).core else none) := by
        rw [← hput]
        exact World.coreOf_addSocket _ (.cgi g) epollAdd
      rw [hall]
      refine ⟨?_, fun id' hne => ?_⟩
      · rw [Function.update_of_ne hid, Function.update_self]
      · by_cases hnew : id' = w.nextId
        · rw [if_pos hnew, hnew, Function.update_self]
          rfl
        · rw [if_neg hnew, Function.update_of_ne hnew, Function.update_of_ne hne]
  rw [World.clientHandled]
  by_cases hremove : hd.removeSocket = true
  · rw [if_pos hremove, if_pos hremove, World.coreOf_remove]
    refine ⟨Function.update_self _ _ _, fun id' hne => ?_⟩
    rw [Function.update_of_ne hne]
    exact hadd.2 id' hne
  · rw [if_neg hremove, if_neg hremove]
    exact hadd

theorem clientEvent_lives {c : ClientSocket} {events : Events} {rest : List (SocketId × Events)}
    {time : Int} {ans : ClientSocket.Answers} {epollAdd : Bool} (hw : LoopInv w)
    (hsilent : w.Silent) (hcontrol : w.control = .handling ((id, events) :: rest))
    (hl : l = .clientEvent time ans epollAdd) (hc : w.heap id = some (.client c))
    (h : w.clientEvent id c events ans epollAdd = some w') (id' : SocketId) : w.Lives l w' id' := by
  obtain ⟨hd, -, hhd, rfl⟩ := World.clientEvent_cases h
  have hid : id ≠ w.nextId := (hw.lt hc).ne
  obtain ⟨after, hlog, hafter⟩ := clientHandled_log w id c.fd hd epollAdd
  obtain ⟨hself, hothers⟩ := @clientHandled_core w id c.fd hd epollAdd hid
  rw [World.Lives, actionsOf_did hlog hafter]
  by_cases hself' : id = id'
  · subst hself'
    rw [if_pos rfl, hself, World.coreOf_of hc]
    exact .event hcontrol hl hc hhd
  · rw [if_neg hself', List.append_nil, hothers id' (Ne.symm hself')]
    by_cases hnew : id' = w.nextId
    · rw [if_pos hnew, hnew, hsilent _ le_rfl, World.coreOf_eq_none.mpr (hw.fresh _ le_rfl)]
      rcases hg : hd.newSocket with - | g
      · exact .same
      · cases epollAdd with
        | true =>
            obtain ⟨hread, hwrite⟩ := ClientSocket.handleEvent_new_buffers hhd hg
            exact .started rfl hl hread hwrite
        | false => exact .same
    · rw [if_neg hnew]
      exact .same

theorem cgiHandled_objects (w : World) (id : SocketId) (fd : Fd) (hd : CgiSocket.Handled) :
    (w.cgiHandled id fd hd).log = w.log ++ hd.actions.map (.acted id) ∧
      (w.cgiHandled id fd hd).heap = Function.update w.heap id (some (.cgi hd.cgi)) := by
  rw [World.cgiHandled]
  rcases hd.reaped with - | pid
  · exact ⟨rfl, rfl⟩
  · exact ⟨rfl, rfl⟩

theorem cgiHandled_core (w : World) (id : SocketId) (fd : Fd) (hd : CgiSocket.Handled) :
    (w.cgiHandled id fd hd).coreOf = Function.update w.coreOf id (some (Socket.cgi hd.cgi).core) := by
  rw [← World.coreOf_put]
  funext id'
  rw [World.coreOf, World.coreOf, (cgiHandled_objects w id fd hd).2]
  rfl

theorem CgiCases.isCgi {g : CgiSocket} {events : Events} {ans : CgiSocket.Answers}
    {hd : CgiSocket.Handled}
    (hcases : World.CgiCases g events ans hd) :
    hd.cgi.writeBuffer = g.writeBuffer ∧ ∀ a ∈ hd.actions, a.isCgi = true := by
  obtain ⟨-, -, -, hactions⟩ := hcases.base
  constructor
  · cases hcases with
    | _ => rfl
  · intro a ha
    rw [hactions a ha]
    rfl

/-- A CGI socket has done something by itself. -/
theorem cgiHandled_lives {g : CgiSocket} {events : Events} {ans : CgiSocket.Answers} {hd : CgiSocket.Handled}
    (hg : w.heap id = some (.cgi g)) (hcases : World.CgiCases g events ans hd) (id' : SocketId) :
    w.Lives l (if hd.removeSocket then (w.cgiHandled id g.fd hd).remove id g.fd
      else w.cgiHandled id g.fd hd) id' := by
  obtain ⟨hwrite, hacts⟩ := CgiCases.isCgi hcases
  have hlog := (cgiHandled_objects w id g.fd hd).1
  have hcore := cgiHandled_core w id g.fd hd
  by_cases hremove : hd.removeSocket = true
  · rw [if_pos hremove]
    have hlog' : ((w.cgiHandled id g.fd hd).remove id g.fd).log =
        w.log ++ (hd.actions.map (.acted id) ++ [.deleted id]) := by
      rw [World.log_remove, hlog, List.append_assoc]
    have hcore' : ((w.cgiHandled id g.fd hd).remove id g.fd).coreOf =
        Function.update w.coreOf id none := by
      rw [World.coreOf_remove, hcore, Function.update_idem]
    refine lives_one (actionsOf_did hlog' ?_) hcore' ?_ id'
    · intro id action hmem
      cases List.mem_singleton.mp hmem
    · rw [World.coreOf_of hg]
      exact .ended g hacts
  · rw [if_neg hremove]
    have hlog' : (w.cgiHandled id g.fd hd).log = w.log ++ (hd.actions.map (.acted id) ++ []) := by
      rw [hlog, List.append_nil]
    refine lives_one (actionsOf_did hlog' fun _ _ => List.not_mem_nil) hcore ?_ id'
    rw [World.coreOf_of hg]
    exact .printed hwrite hacts

/-- What the owner of a CGI socket is told. -/
theorem notify_lives {g : CgiSocket} {events : Events} {rest : List (SocketId × Events)}
    {time : Int} {ans : CgiSocket.Answers} {hd : CgiSocket.Handled} {owner : SocketId}
    {cans : ClientSocket.CgiAnswers} {c : ClientSocket}
    (hcontrol : w.control = .handling ((id, events) :: rest)) (hl : l = .cgiEvent time ans cans)
    (hg : w.heap id = some (.cgi g)) (howner : g.owner = some owner)
    (hend : World.CgiEnds events ans) (hreg : ans.registered = true) (hcases : World.CgiCases g events ans hd)
    (hc : (w.cgiHandled id g.fd hd).heap owner = some (.client c)) (id' : SocketId) :
    w.Lives l (((w.cgiHandled id g.fd hd).notify id g.fd (World.outcomeOf g ans.exitedZero) cans owner
      c).remove id g.fd) id' := by
  obtain ⟨-, hacts⟩ := CgiCases.isCgi hcases
  obtain ⟨hlog, hheap⟩ := cgiHandled_objects w id g.fd hd
  have hcore := cgiHandled_core w id g.fd hd
  generalize hw1 : w.cgiHandled id g.fd hd = w1 at hlog hheap hcore hc
  obtain ⟨res, htext, hres⟩ := World.notify_eq w1 id g.fd g ans.exitedZero cans owner c
  have hne : owner ≠ id := by
    rintro rfl
    rw [hheap, Function.update_self] at hc
    cases hc
  rw [hheap, Function.update_of_ne hne] at hc
  have hcoreOwner : w.coreOf owner = some (Socket.client c).core := World.coreOf_of hc
  -- what the CGI socket does besides
  have hover : ∃ output : List Action, (∀ a ∈ output, a.isCgi = true) ∧
      (w1.handedOver id owner (World.outcomeOf g ans.exitedZero)).log = w1.log ++ output.map (.acted id) ∧
      (w1.handedOver id owner (World.outcomeOf g ans.exitedZero)).coreOf = w1.coreOf := by
    cases ans.exitedZero with
    | false => exact ⟨[], fun _ h => absurd h List.not_mem_nil, (List.append_nil _).symm, rfl⟩
    | true =>
        refine ⟨[.handOver owner g.readBuffer], ?_, rfl, rfl⟩
        intro a ha
        rw [List.mem_singleton.mp ha]
        rfl
  obtain ⟨output, hover, hlogOver, hcoreOver⟩ := hover
  have hall : ∀ id', actionsOf ((w1.notify id g.fd (World.outcomeOf g ans.exitedZero) cans owner
      c).remove id g.fd).log id' = actionsOf w.log id' ++
        ((if id = id' then hd.actions ++ output else []) ++
          if owner = id' then (c.answer res cans).actions else []) := by
    intro id'
    have hdel : actionsOf [Entry.deleted id] id' = [] := rfl
    rw [World.log_remove, hres, World.log_perform, World.log_put, hlogOver, hlog]
    simp only [actionsOf_append, actionsOf_acted, hdel, List.append_nil, List.append_assoc]
    split_ifs
    · rw [List.append_assoc]
    · rw [List.append_nil, List.append_nil]
    · rfl
    · rfl
  have hcores : ((w1.notify id g.fd (World.outcomeOf g ans.exitedZero) cans owner
      c).remove id g.fd).coreOf = Function.update (Function.update w.coreOf owner
        (some (Socket.client (c.answer res cans).client).core)) id none := by
    rw [World.coreOf_remove, hres, World.coreOf_perform, World.coreOf_put, hcoreOver, hcore,
      Function.update_comm hne, Function.update_idem, Function.update_comm hne.symm]
  rw [World.Lives, hall, hcores]
  by_cases hself : id = id'
  · subst hself
    rw [if_pos rfl, if_neg hne, List.append_nil, Function.update_self, World.coreOf_of hg]
    refine .ended g fun a ha => ?_
    exact (List.mem_append.mp ha).elim (hacts a) (hover a)
  · rw [if_neg hself, List.nil_append, Function.update_of_ne (Ne.symm hself)]
    by_cases hto : owner = id'
    · subst hto
      rw [if_pos rfl, Function.update_self, hcoreOwner]
      exact .answered hcontrol hl hg howner hend hreg hc htext
    · rw [if_neg hto, List.append_nil, Function.update_of_ne (Ne.symm hto)]
      exact .same

theorem cgiEvent_lives {g : CgiSocket} {events : Events} {rest : List (SocketId × Events)}
    {time : Int} {ans : CgiSocket.Answers} {owner : ClientSocket.CgiAnswers}
    (hcontrol : w.control = .handling ((id, events) :: rest)) (hl : l = .cgiEvent time ans owner)
    (hg : w.heap id = some (.cgi g))
    (h : w.cgiEvent id g events ans owner = some w') (id' : SocketId) : w.Lives l w' id' := by
  obtain ⟨hd, w1, -, hcases, hpass, rfl⟩ := World.cgiEvent_cases h
  have hself : w.Lives l (if hd.removeSocket then (w.cgiHandled id g.fd hd).remove id g.fd
      else w.cgiHandled id g.fd hd) id' := cgiHandled_lives hg hcases id'
  cases hcases with
  | ends hend hreg howner =>
      obtain ⟨c, hc, -, rfl⟩ := World.passOn_cases hpass
      exact notify_lives hcontrol hl hg howner hend hreg (.ends hend hreg howner) hc id'
  | _ =>
      cases hpass
      exact hself

theorem visit_lives {now : Int} {fd : Fd} {s : Socket} {sends : List (Option Nat)}
    {date : Option Bytes} {entries : List (Fd × SocketId)}
    (hcontrol : w.control = .sweeping now ((fd, id) :: entries)) (hl : l = .visit sends date)
    (hs : w.heap id = some s) (id' : SocketId) :
    w.Lives l (w.visit now fd id s sends date) id' := by
  by_cases hout : s.isTimeout (now - kRequestTimeout) = true
  · rw [World.visit, if_pos hout]
    dsimp only
    rw [delete_erase]
    -- no `isTimeout` of a listening socket; a program goes silently, a connection with a 408
    cases s with
    | server s => cases hout
    | cgi g =>
        have hlog : ((w.note (.expired id now)).remove id fd).log =
            w.log ++ [.expired id now, .deleted id] := by
          rw [World.log_remove, World.log_note, List.append_assoc]
          rfl
        have hcore : ((w.note (.expired id now)).remove id fd).coreOf =
            Function.update w.coreOf id none := World.coreOf_remove _ _ _
        have hacts : actionsOf ((w.note (.expired id now)).remove id fd).log id' =
            actionsOf w.log id' := by
          rw [hlog, actionsOf_append]
          exact List.append_nil _
        rw [World.Lives, hacts, hcore]
        by_cases hid : id' = id
        · rw [hid, Function.update_self]
          exact .gone
        · rw [Function.update_of_ne hid]
          exact .same
    | client c =>
        have hlog : ((((w.note (.expired id now)).put id
            (.client (c.handleTimeout sends date).client)).perform id c.fd
              (c.handleTimeout sends date).actions).remove id fd).log = w.log ++
            ([.expired id now] ++ (c.handleTimeout sends date).actions.map (.acted id) ++
              [.deleted id]) := by
          rw [World.log_remove, World.log_perform, World.log_put, World.log_note]
          simp only [List.append_assoc]
        have hcore : ((((w.note (.expired id now)).put id
            (.client (c.handleTimeout sends date).client)).perform id c.fd
              (c.handleTimeout sends date).actions).remove id fd).coreOf =
            Function.update w.coreOf id none := by
          rw [World.coreOf_remove, World.coreOf_perform, World.coreOf_put, Function.update_idem,
            World.coreOf_note]
        refine lives_one ?_ hcore (?_ : Life w l id _ _ (_ ++ (c.handleTimeout sends date).actions) none) id'
        · intro id'
          have hexp : actionsOf [Entry.expired id now] id' = [] := rfl
          have hdel : actionsOf [Entry.deleted id] id' = [] := rfl
          rw [hlog, actionsOf_append, actionsOf_append, actionsOf_append, hexp, hdel,
            actionsOf_acted, List.nil_append, List.append_nil]
        · rw [World.coreOf_of hs]
          exact .expired hcontrol hl hs hout
  · rw [World.visit, if_neg hout]
    exact .same

/-! ### Steps -/

theorem opened_lives {config : ServerConfig} {configs : List ServerConfig} {fd : Fd} {now : Int}
    (hw : LoopInv w) (hsilent : w.Silent) (id : SocketId) :
    actionsOf (w.opened config configs fd now).log id = actionsOf w.log id ∧
      w.Lives l (w.opened config configs fd now) id := by
  have hentries : ∀ id action, Entry.acted id action ∉
      [Entry.created w.nextId now, .inserted fd w.nextId w.sockets[fd]?] := by
    intro id action hmem
    simp at hmem
  have hcore : (w.opened config configs fd now).coreOf = Function.update w.coreOf w.nextId
      (some (.server ⟨{ fd := fd, lastActivityTime := now }, config⟩)) := World.coreOf_insert _ _
  have hlog : (w.opened config configs fd now).log =
      w.log ++ [Entry.created w.nextId now, .inserted fd w.nextId w.sockets[fd]?] :=
    World.log_insert _ _
  refine ⟨?_, lives_new hw hsilent hlog hentries hcore (.opened rfl _) id⟩
  rw [hlog, actionsOf_append, actionsOf_of_none hentries, List.append_nil]

theorem handles_lives {w1 : World} {events : Events} {rest : List (SocketId × Events)} {time : Int}
    {s : Socket} {l : Label} (hw : LoopInv w) (hsilent : w.Silent)
    (hcontrol : w.control = .handling ((id, events) :: rest)) (hs : w.heap id = some s)
    (h : World.Handles (w.note (.dispatched id time)) id events w1 time s l) (id' : SocketId) :
    w.Lives l w1 id' := by
  have hacts : ∀ id', actionsOf (w.note (.dispatched id time)).log id' = actionsOf w.log id' := by
    intro id'
    rw [World.log_note, actionsOf_append]
    exact List.append_nil _
  have hw' : LoopInv (w.note (.dispatched id time)) :=
    ⟨hw.toTableInv.note rfl, hw.entries, hw.entries_nodup, hw.ended⟩
  have hsilent' : (w.note (.dispatched id time)).Silent := fun id' hle => by
    rw [hacts]
    exact hsilent id' hle
  have hlives : (w.note (.dispatched id time)).Lives l w1 id' := by
    cases h with
    | server h => exact serverTurn_lives hw' hsilent' h id'
    | @client c ans epollAdd h =>
        have hs' : (w.note (.dispatched id time)).heap id = some (.client c) := hs
        exact clientEvent_lives hw' hsilent' hcontrol rfl hs' h id'
    | @cgi g ans owner h =>
        have hs' : (w.note (.dispatched id time)).heap id = some (.cgi g) := hs
        have hcontrol' : (w.note (.dispatched id time)).control = .handling ((id, events) :: rest) :=
          hcontrol
        exact cgiEvent_lives hcontrol' rfl hs' h id'
  rw [World.Lives, hacts, World.coreOf_note] at hlives
  refine Life.of_eq ?_ ?_ ?_ hlives
  · rfl
  · rfl
  · rfl

/-- **A step is one in the life of every socket.** -/
theorem turned_lives {l : Label} (hw : LoopInv w) (hsilent : w.Silent) (h : World.Turned w l w')
    (id : SocketId) : w.Lives l w' id := by
  cases h with
  | openFails => exact clearResources_lives hw.toTableInv id
  | opens hc hfd => exact (opened_lives hw hsilent id).2
  | @unregistered config configs fd now hc hfd =>
      have hacts := (@opened_lives w (.openServer (some fd) now false) config configs fd now hw hsilent id).1
      have hinv := @opened_tableInv w config configs fd now hw.toTableInv hfd
      have hnone : (w.opened config configs fd now).clearResources.coreOf id = none :=
        World.coreOf_eq_none.mpr ((clearResources_tableInv hinv).2 id)
      rw [World.Lives, clearResources_acts, hacts, hnone]
      exact .gone
  | sweeps hc => exact lives_of_eq rfl rfl id
  | visits hc hs => exact visit_lives hc rfl hs id
  | waits hc => exact lives_of_eq rfl rfl id
  | reports hc hr => exact lives_of_eq rfl rfl id
  | handles hc hs h => exact handles_lives hw hsilent hc hs h id
  | clears => exact clearResources_lives hw.toTableInv id
  | forks pid child => exact lives_of_eq rfl rfl id
  | closes pid file => exact lives_of_eq rfl rfl id
  | exits pid => exact lives_of_eq rfl rfl id

theorem addSocket_nextId {s : Socket} {epollAdd : Bool} (hnext : w'.nextId = w.nextId) :
    w.nextId < (w'.addSocket s epollAdd).nextId := by
  rw [← hnext]
  cases epollAdd with
  | true => exact Nat.lt_succ_self _
  | false =>
      have hdelete : (w'.addSocket s false).nextId = w'.nextId + 1 := World.nextId_delete _ _
      rw [hdelete]
      exact Nat.lt_succ_self _

theorem remove_nextId (w : World) (id : SocketId) (fd : Fd) : (w.remove id fd).nextId = w.nextId :=
  World.nextId_delete _ _

theorem clientHandled_nextId_lt {fd : Fd} {hd : ClientSocket.Handled} {epollAdd : Bool}
    (hnew : hd.newSocket.isSome = true) : w.nextId < (w.clientHandled id fd hd epollAdd).nextId := by
  have hadd : w.nextId < (((w.put id (.client hd.client)).perform id fd hd.actions).addNewSocket
      hd.newSocket epollAdd).nextId := by
    obtain ⟨g, hg⟩ := Option.isSome_iff_exists.mp hnew
    rw [hg]
    exact addSocket_nextId rfl
  rw [World.clientHandled]
  split_ifs
  · exact hadd.trans_eq (remove_nextId _ id fd).symm
  · exact hadd

theorem clientHandled_nextId (w : World) (id : SocketId) (fd : Fd) (hd : ClientSocket.Handled)
    (epollAdd : Bool) : w.nextId ≤ (w.clientHandled id fd hd epollAdd).nextId := by
  rcases hnew : hd.newSocket with - | g
  · rw [World.clientHandled, hnew]
    split_ifs
    · rw [remove_nextId]
      exact le_rfl
    · exact le_rfl
  · exact (clientHandled_nextId_lt (by rw [hnew]; rfl)).le

theorem cgiEvent_nextId {g : CgiSocket} {events : Events} {ans : CgiSocket.Answers}
    {owner : ClientSocket.CgiAnswers} (h : w.cgiEvent id g events ans owner = some w') :
    w'.nextId = w.nextId := by
  obtain ⟨hd, w1, -, hcases, hpass, rfl⟩ := World.cgiEvent_cases h
  have hself : (w.cgiHandled id g.fd hd).nextId = w.nextId := by
    rw [World.cgiHandled]
    rcases hd.reaped with - | pid
    · rfl
    · rfl
  have htold : w1.nextId = w.nextId := by
    cases hcases with
    | ends hend hreg howner =>
        obtain ⟨c, -, -, rfl⟩ := World.passOn_cases hpass
        obtain ⟨res, -, hres⟩ := World.notify_eq (w.cgiHandled id g.fd _) id g.fd g ans.exitedZero owner
          _ c
        rw [hres, ← hself]
        cases ans.exitedZero with
        | false => rfl
        | true => rfl
    | _ =>
        cases hpass
        exact hself
  split_ifs
  · rw [remove_nextId, htold]
  · exact htold

theorem handles_nextId {w1 : World} {events : Events} {time : Int} {s : Socket} {l : Label}
    (h : World.Handles w id events w1 time s l) : w.nextId ≤ w1.nextId := by
  cases h with
  | @server s ans epollAdd h =>
      cases h with
      | nothing => exact le_rfl
      | closed => exact le_rfl
      | accepts =>
          apply Nat.le_of_lt
          exact addSocket_nextId rfl
  | client h =>
      obtain ⟨hd, -, -, rfl⟩ := World.clientEvent_cases h
      exact clientHandled_nextId w id _ hd _
  | cgi h => exact (cgiEvent_nextId h).ge

theorem visit_nextId (w : World) (now : Int) (fd : Fd) (id : SocketId) (s : Socket)
    (sends : List (Option Nat)) (date : Option Bytes) :
    (w.visit now fd id s sends date).nextId = w.nextId := by
  rw [World.visit]
  split_ifs
  · cases s with
    | server s => exact World.nextId_delete _ _
    | client c => exact World.nextId_delete _ _
    | cgi g => exact World.nextId_delete _ _
  · rfl

/-- An address is not used again. -/
theorem turned_nextId {l : Label} (h : World.Turned w l w') : w.nextId ≤ w'.nextId := by
  cases h with
  | openFails => exact (World.nextId_clearResources w).ge
  | opens => exact Nat.le_succ _
  | unregistered =>
      rw [World.nextId_clearResources]
      exact Nat.le_succ _
  | visits => exact (visit_nextId _ _ _ _ _ _ _).ge
  | @handles time id events rest s l w1 hc hs h =>
      have hle : (w.note (.dispatched id time)).nextId ≤ w1.nextId := handles_nextId h
      exact hle
  | clears => exact (World.nextId_clearResources w).ge
  | sweeps => exact le_rfl
  | waits => exact le_rfl
  | reports => exact le_rfl
  | forks => exact le_rfl
  | closes => exact le_rfl
  | exits => exact le_rfl

/-- The loop, and the sockets that have not been made. -/
structure RunInv (w : World) : Prop extends LoopInv w where
  silent : w.Silent

theorem step_lives {l : Label} (hw : RunInv w) (h : w.step l = some w') :
    RunInv w' ∧ ∀ id, w.Lives l w' id := by
  obtain ⟨w1, hturn, rfl⟩ := World.step_cases h
  have hlives := turned_lives hw.toLoopInv hw.silent hturn
  refine ⟨⟨step_loopInv hw.toLoopInv h, ?_⟩, hlives⟩
  intro id hle
  have hle : w1.nextId ≤ id := hle
  have hold := (turned_nextId hturn).trans hle
  have hlife := hlives id
  rw [World.Lives, hw.silent id hold, World.coreOf_eq_none.mpr (hw.fresh id hold)] at hlife
  show actionsOf w1.log id = []
  generalize actionsOf w1.log id = acts at hlife ⊢
  generalize w1.coreOf id = s' at hlife
  generalize hnil : ([] : List Action) = before at hlife
  generalize hnone : (none : Option Socket) = s at hlife
  cases hlife with
  | same => rfl
  | gone => rfl
  | opened => rfl
  | accepted => rfl
  | started => rfl
  | event => cases hnone
  | answered => cases hnone
  | expired => cases hnone
  | printed => cases hnone
  | ended => cases hnone

theorem start_runInv (hw : World.IsStart w) : RunInv w := by
  refine ⟨start_loopInv hw, ?_⟩
  obtain ⟨configs, open_, clock, rfl⟩ := hw
  exact fun _ _ => rfl

/-- What holds of every life holds in every run. -/
theorem life_invariant {P : World → Label → Prop}
    {I : SocketId → List Action → Option Socket → Prop} (hstart : ∀ id, I id [] none)
    (hstep : ∀ w l id acts s acts' s', RunInv w → P w l → Life w l id acts s acts' s' →
      I id acts s → I id acts' s')
    (h : Transition.Reachable World.step P World.IsStart w) :
    RunInv w ∧ ∀ id, I id (actionsOf w.log id) (w.coreOf id) := by
  apply h.invariant
  · intro w hw
    refine ⟨start_runInv hw, fun id => ?_⟩
    obtain ⟨configs, open_, clock, rfl⟩ := hw
    exact hstart id
  · intro w l w' hw hl hst
    obtain ⟨hinv, hlives⟩ := step_lives hw.1 hst
    exact ⟨hinv, fun id => hstep w l id _ _ _ _ hw.1 hl (hlives id) (hw.2 id)⟩

theorem reachable_runInv {P : World → Label → Prop}
    (h : Transition.Reachable World.step P World.IsStart w) : RunInv w :=
  h.invariant (fun _ => start_runInv) fun _ _ _ hw _ hstep => (step_lives hw hstep).1

end Steps

end Webserv
