/-
Webserv/Listening.lean

Who listens on which port, and for whom a connection has been accepted.

The constructor opens its servers first, so the server of the n-th port has the n-th address;
the loop removes none of them, and a connection has the configuration of the server that
has accepted it.
-/
import Webserv.Startup
import Webserv.Sweeps
import Webserv.Watching

namespace Webserv

/-! ### Roles -/

/-- What a socket is for, and under which configuration. -/
inductive Role
  | server (config : ServerConfig)
  | client (config : ServerConfig)
  | cgi

/-- The role of a socket, which no handler changes. -/
def Socket.role : Socket → Role
  | .server s => .server s.config
  | .client c => .client c.config
  | .cgi _ => .cgi

@[simp] theorem Socket.role_core (s : Socket) : s.core.role = s.role := by
  cases s with
  | server => rfl
  | client => rfl
  | cgi => rfl

/-- The roles of the sockets that are alive. -/
def World.roleOf (w : World) (id : SocketId) : Option Role := (w.coreOf id).map Socket.role

/-- **A step that opens no server**: it removes none, and a new connection has the
configuration of a server. -/
def Carries (w w' : World) : Prop :=
  ∀ id, w'.roleOf id = w.roleOf id ∨
    (w'.roleOf id = none ∧ ∀ config, w.roleOf id ≠ some (.server config)) ∨
    id = w.nextId ∧ (w'.roleOf id = some .cgi ∨
      ∃ config sid, w'.roleOf id = some (.client config) ∧ w.roleOf sid = some (.server config))

section Steps

variable {w w' : World} {id : SocketId} {s : Socket}

theorem roleOf_of (hs : w.heap id = some s) : w.roleOf id = some s.role := by
  rw [World.roleOf, World.coreOf_of hs, Option.map_some, Socket.role_core]

/-- A server is one with this configuration. -/
theorem heap_of_server {config : ServerConfig} (h : w.roleOf id = some (.server config)) :
    ∃ s, w.heap id = some (.server s) ∧ s.config = config := by
  rcases hs : w.heap id with - | s | c | g
  · rw [World.roleOf, World.coreOf_eq_none.mpr hs] at h
    cases h
  · rw [roleOf_of hs] at h
    cases h
    exact ⟨s, rfl, rfl⟩
  · rw [roleOf_of hs] at h
    cases h
  · rw [roleOf_of hs] at h
    cases h

theorem roleOf_eq_none : w.roleOf id = none ↔ w.heap id = none :=
  Option.map_eq_none_iff.trans World.coreOf_eq_none

theorem roleOf_congr (h : w'.coreOf = w.coreOf) : w'.roleOf = w.roleOf := by
  funext id
  rw [World.roleOf, World.roleOf, h]

theorem roleOf_update {x : Option Socket} (h : w'.coreOf = Function.update w.coreOf id x) :
    w'.roleOf = Function.update w.roleOf id (x.map Socket.role) := by
  funext id'
  rw [World.roleOf, h, Function.update_apply, Function.update_apply]
  split_ifs
  · rfl
  · rfl

/-- An object has changed, but not what it is for. -/
theorem roleOf_put (h : w.roleOf id = some s.role) : (w.put id s).roleOf = w.roleOf := by
  rw [roleOf_update (World.coreOf_put w id s), Option.map_some, Socket.role_core, ← h,
    Function.update_eq_self]

theorem Carries.of_core (h : w'.coreOf = w.coreOf) : Carries w w' := fun id =>
  .inl (congrFun (roleOf_congr h) id)

/-- The world in front is one with the same objects. -/
theorem Carries.after {w1 : World} (h : Carries w1 w') (hcore : w1.coreOf = w.coreOf)
    (hnext : w1.nextId = w.nextId) : Carries w w' := by
  intro id
  have hid := h id
  rw [roleOf_congr hcore, hnext] at hid
  exact hid

/-- The world behind is one with the same objects. -/
theorem Carries.before {w1 : World} (h : Carries w w1) (hcore : w'.coreOf = w1.coreOf) :
    Carries w w' := by
  intro id
  rw [roleOf_congr hcore]
  exact h id

theorem nextTurn_ne_starting {α : Type} {again : List α → Control} {done : Control} {xs : List α}
    {configs : List ServerConfig} (hagain : ∀ xs, again xs ≠ .starting configs)
    (hdone : done ≠ .starting configs) : World.nextTurn again done xs ≠ .starting configs := by
  cases xs with
  | nil => exact hdone
  | cons x xs => exact hagain _

theorem serverTurn_carries {s : ServerSocket} {ans : ServerSocket.Answers} {epollAdd : Bool}
    (hw : TableInv w) (hs : w.heap id = some (.server s))
    (h : World.ServerTurn w s ans epollAdd w') : Carries w w' := by
  cases h with
  | nothing => exact .of_core rfl
  | closed => exact .of_core rfl
  | @accepts fd ip hfd =>
      intro id'
      have hrole := congrFun (roleOf_update (World.coreOf_addSocket
        { w with kernel := w.kernel.openFd fd } (.client (World.accepted s fd ip ans.now)) epollAdd)) id'
      rw [Function.update_apply] at hrole
      split_ifs at hrole with hid hadd
      · refine .inr (.inr ⟨hid, .inr ⟨s.config, id, hrole, roleOf_of hs⟩⟩)
      · refine .inl (hrole.trans ?_)
        rw [hid]
        exact (roleOf_eq_none.mpr (hw.fresh _ le_rfl)).symm
      · exact .inl hrole

theorem clientEvent_carries {c : ClientSocket} {events : Events} {ans : ClientSocket.Answers}
    {epollAdd : Bool} (hw : TableInv w) (hc : w.heap id = some (.client c))
    (h : w.clientEvent id c events ans epollAdd = some w') : Carries w w' := by
  obtain ⟨hd, -, hhd, rfl⟩ := World.clientEvent_cases h
  obtain ⟨hself, hothers⟩ := @clientHandled_core w id c.fd hd epollAdd (hw.lt hc).ne
  have hconfig := (ClientSocket.handleEvent_base hhd).2.2
  intro id'
  by_cases hid : id' = id
  · subst hid
    rw [World.roleOf, hself, roleOf_of hc]
    split_ifs
    · exact .inr (.inl ⟨rfl, fun config hrole => by cases hrole⟩)
    · refine .inl ?_
      rw [Option.map_some, Socket.role_core, Socket.role, Socket.role, hconfig]
  · rw [World.roleOf, hothers id' hid]
    by_cases hnew : id' = w.nextId
    · subst hnew
      rw [if_pos rfl]
      rcases hd.newSocket with - | g
      · exact .inl rfl
      · cases epollAdd with
        | true => exact .inr (.inr ⟨rfl, .inl rfl⟩)
        | false => exact .inl (roleOf_eq_none.mpr (hw.fresh _ le_rfl)).symm
    · rw [if_neg hnew]
      exact .inl rfl

theorem roleOf_notify {fd : Fd} {g : CgiSocket} {exitedZero : Bool} {ans : ClientSocket.CgiAnswers}
    {owner : SocketId} {c : ClientSocket} (hc : w.heap owner = some (.client c)) :
    (w.notify id fd (World.outcomeOf g exitedZero) ans owner c).roleOf = w.roleOf := by
  obtain ⟨res, -, hres⟩ := World.notify_eq w id fd g exitedZero ans owner c
  have hover : (w.handedOver id owner (World.outcomeOf g exitedZero)).roleOf = w.roleOf := by
    cases exitedZero with
    | false => rfl
    | true => rfl
  rw [hres]
  refine (roleOf_put ?_).trans hover
  have hrole : w.roleOf owner = some (.client c.config) := roleOf_of hc
  rw [hover]
  exact hrole

theorem cgiEvent_carries {g : CgiSocket} {events : Events} {ans : CgiSocket.Answers}
    {owner : ClientSocket.CgiAnswers} (hg : w.heap id = some (.cgi g))
    (h : w.cgiEvent id g events ans owner = some w') : Carries w w' := by
  obtain ⟨hd, w1, -, hcases, hpass, rfl⟩ := World.cgiEvent_cases h
  have hdone : (w.cgiHandled id g.fd hd).roleOf = w.roleOf := by
    rw [roleOf_update (cgiHandled_core w id g.fd hd), ← Function.update_eq_self id w.roleOf,
      roleOf_of hg, Function.update_idem]
    rfl
  have htold : w1.roleOf = w.roleOf := by
    cases hcases with
    | ends hend hreg howner =>
        obtain ⟨c, hc, -, rfl⟩ := World.passOn_cases hpass
        exact (roleOf_notify hc).trans hdone
    | _ =>
        cases hpass
        exact hdone
  intro id'
  split_ifs
  · rw [roleOf_update (World.coreOf_remove w1 id g.fd), htold, Function.update_apply]
    split_ifs with hid
    · refine .inr (.inl ⟨rfl, fun config hrole => ?_⟩)
      rw [hid, roleOf_of hg] at hrole
      cases hrole
    · exact .inl rfl
  · exact .inl (congrFun htold id')

theorem visit_carries {now : Int} {fd : Fd} {sends : List (Option Nat)} {date : Option Bytes}
    (hs : w.heap id = some s) : Carries w (w.visit now fd id s sends date) := by
  intro id'
  have hcore : ∀ s', (w.visit now fd id s sends date).coreOf id' = some s' ↔ _ := fun s' =>
    visit_coreOf hs sends date
  rw [World.roleOf, World.roleOf]
  generalize (w.visit now fd id s sends date).coreOf id' = s2 at hcore
  rcases s2 with - | t
  · rcases hs' : w.coreOf id' with - | s'
    · exact .inl rfl
    · refine .inr (.inl ⟨rfl, fun config hrole => ?_⟩)
      have hkept := (not_iff_not.mpr (hcore s')).mp (Option.some_ne_none s').symm
      rw [not_and_not_right] at hkept
      obtain ⟨-, hout⟩ := hkept hs'
      -- a server is never overdue
      cases s' with
      | server => cases hout
      | client => cases hrole
      | cgi => cases hrole
  · rw [((hcore t).mp rfl).1]
    exact .inl rfl

/-- **What a step does to the servers**: it opens the next one, or none, or the program ends. -/
theorem turned_carries {l : Label} (hloop : LoopInv w) (h : World.Turned w l w') :
    (∃ config configs, w.control = .starting (config :: configs) ∧
        w'.control = World.nextTurn .starting .top configs ∧ w'.nextId = w.nextId + 1 ∧
        w'.roleOf = Function.update w.roleOf w.nextId (some (.server config))) ∨
      (w'.control = .ended ∧ ∀ id, w'.roleOf id = none) ∨
      Carries w w' ∧ w.nextId ≤ w'.nextId ∧
        ∀ configs, (w'.control = .starting configs ↔ w.control = .starting configs) ∧
          (w.control = .starting configs → w'.nextId = w.nextId) := by
  have hcleared : ∀ {w : World}, TableInv w →
      w.clearResources.control = .ended ∧ ∀ id, w.clearResources.roleOf id = none := fun hw =>
    ⟨rfl, fun id => roleOf_eq_none.mpr ((clearResources_tableInv hw).2 id)⟩
  -- from one place in the loop to another
  have hmoves : ∀ {w' : World}, (∀ configs, w.control ≠ .starting configs) →
      (∀ configs, w'.control ≠ .starting configs) → ∀ configs,
        (w'.control = .starting configs ↔ w.control = .starting configs) ∧
          (w.control = .starting configs → w'.nextId = w.nextId) := fun hold hnew configs =>
    ⟨iff_of_false (hnew configs) (hold configs), fun hc => absurd hc (hold configs)⟩
  have hnext := turned_nextId h
  cases h with
  | openFails => exact .inr (.inl (hcleared hloop.toTableInv))
  | @opens config configs fd now hc hfd =>
      refine .inl ⟨config, configs, hc, rfl, rfl, ?_⟩
      exact roleOf_update (World.coreOf_insert _ _)
  | unregistered hc hfd => exact .inr (.inl (hcleared (opened_tableInv hloop.toTableInv hfd)))
  | sweeps hc =>
      refine .inr (.inr ⟨.of_core rfl, hnext, hmoves (fun configs => ?_) fun configs => ?_⟩)
      · rw [hc]
        exact Control.noConfusion
      · exact nextTurn_ne_starting (fun _ => Control.noConfusion) Control.noConfusion
  | visits hc hs =>
      refine .inr (.inr ⟨(visit_carries hs).before rfl, hnext, hmoves (fun configs => ?_) fun configs => ?_⟩)
      · rw [hc]
        exact Control.noConfusion
      · exact nextTurn_ne_starting (fun _ => Control.noConfusion) Control.noConfusion
  | waits hc =>
      refine .inr (.inr ⟨.of_core rfl, hnext, hmoves (fun configs => ?_) fun configs => Control.noConfusion⟩)
      rw [hc]
      exact Control.noConfusion
  | reports hc =>
      refine .inr (.inr ⟨.of_core rfl, hnext, hmoves (fun configs => ?_) fun configs => ?_⟩)
      · rw [hc]
        exact Control.noConfusion
      · exact nextTurn_ne_starting (fun _ => Control.noConfusion) Control.noConfusion
  | @handles time id events rest s l w1 hc hs hh =>
      have hnote : TableInv (w.note (.dispatched id time)) := hloop.toTableInv.note rfl
      have hs1 : (w.note (.dispatched id time)).heap id = some s := hs
      have hcarries : Carries (w.note (.dispatched id time)) w1 := by
        cases hh with
        | server hh => exact serverTurn_carries hnote hs1 hh
        | client hh => exact clientEvent_carries hnote hs1 hh
        | cgi hh => exact cgiEvent_carries hs1 hh
      refine .inr (.inr ⟨(hcarries.after rfl rfl).before rfl, hnext,
        hmoves (fun configs => ?_) fun configs => ?_⟩)
      · rw [hc]
        exact Control.noConfusion
      · exact nextTurn_ne_starting (fun _ => Control.noConfusion) Control.noConfusion
  | clears => exact .inr (.inl (hcleared hloop.toTableInv))
  | forks => exact .inr (.inr ⟨.of_core rfl, hnext, fun configs => ⟨Iff.rfl, fun _ => rfl⟩⟩)
  | closes => exact .inr (.inr ⟨.of_core rfl, hnext, fun configs => ⟨Iff.rfl, fun _ => rfl⟩⟩)
  | exits => exact .inr (.inr ⟨.of_core rfl, hnext, fun configs => ⟨Iff.rfl, fun _ => rfl⟩⟩)

/-! ### Runs -/

/-- **The servers of a run**, where `ports` are those that the constructor opens. -/
structure Listens (ports : List ServerConfig) (w : World) : Prop where
  servers : ∀ id config, w.roleOf id = some (.server config) → ports[id]? = some config
  clients : ∀ id config, w.roleOf id = some (.client config) → config ∈ ports
  starting : ∀ configs, w.control = .starting configs → configs = ports.drop w.nextId
  started : w.control ≠ .ended → (∀ configs, w.control ≠ .starting configs) → ports.length ≤ w.nextId
  opened : w.control ≠ .ended → ∀ id < w.nextId, ∀ config, ports[id]? = some config →
    w.roleOf id = some (.server config)

variable {ports : List ServerConfig}

theorem Listens.start (ports : List ServerConfig) (open_ : List Fd) (clock : Int) :
    Listens ports (World.start ports open_ clock) where
  servers _ _ h := by cases h
  clients _ _ h := by cases h
  starting configs h := by
    rcases ports with - | ⟨config, ports⟩
    · cases h
    · cases h
      rfl
  started _ h := by
    rcases ports with - | ⟨config, ports⟩
    · exact le_rfl
    · exact absurd rfl (h _)
  opened _ id hid := absurd hid id.not_lt_zero

/-- The next server is opened. -/
theorem Listens.opens {config : ServerConfig} {configs : List ServerConfig} (h : Listens ports w)
    (hc : w.control = .starting (config :: configs))
    (hc' : w'.control = World.nextTurn .starting .top configs) (hnext : w'.nextId = w.nextId + 1)
    (hrole : w'.roleOf = Function.update w.roleOf w.nextId (some (.server config))) :
    Listens ports w' := by
  -- the blocks that are left are those from the next address on
  have hdrop : ports.drop w.nextId = config :: configs := (h.starting _ hc).symm
  have hget : ports[w.nextId]? = some config := by
    rw [← List.head?_drop, hdrop]
    rfl
  have hrest : ports.drop w'.nextId = configs := by
    rw [hnext, ← List.tail_drop, hdrop]
    rfl
  have hold : w.control ≠ .ended := by
    rw [hc]
    exact Control.noConfusion
  refine ⟨fun id c hid => ?_, fun id c hid => ?_, fun rest hrest' => ?_, fun _ hstarted => ?_,
    fun _ id hlt c hid => ?_⟩
  · rw [hrole, Function.update_apply] at hid
    split_ifs at hid with hself
    · cases hid
      rw [hself]
      exact hget
    · exact h.servers id c hid
  · rw [hrole, Function.update_apply] at hid
    split_ifs at hid with hself
    · cases hid
    · exact h.clients id c hid
  · rw [hrest]
    rw [hc'] at hrest'
    rcases configs with - | ⟨c, configs⟩
    · cases hrest'
    · cases hrest'
      rfl
  · rw [← List.drop_eq_nil_iff, hrest]
    rcases configs with - | ⟨c, configs⟩
    · rfl
    · exact absurd hc' (hstarted _)
  · rw [hrole, Function.update_apply]
    split_ifs with hself
    · rw [hself, hget] at hid
      rw [Option.some.inj hid]
    · rw [hnext] at hlt
      exact h.opened hold id (Nat.lt_of_le_of_ne (Nat.le_of_lt_succ hlt) hself) c hid

/-- A step that opens no server. -/
theorem Listens.carries (h : Listens ports w) (hcarries : Carries w w') (hle : w.nextId ≤ w'.nextId)
    (hended : w.control = .ended → w'.control = .ended)
    (hstarting : ∀ configs, (w'.control = .starting configs ↔ w.control = .starting configs) ∧
      (w.control = .starting configs → w'.nextId = w.nextId)) : Listens ports w' := by
  refine ⟨fun id c hid => ?_, fun id c hid => ?_, fun configs hc => ?_, fun hne hstarted => ?_,
    fun hne id hlt c hid => ?_⟩
  · -- an object is kept, gone, or new; a new one is a program or a connection of a socket
    obtain heq | ⟨hnone, -⟩ | ⟨-, hcgi | ⟨_, _, hclient, -⟩⟩ := hcarries id
    · exact h.servers id c (heq.symm.trans hid)
    · rw [hnone] at hid
      cases hid
    · rw [hcgi] at hid
      cases hid
    · rw [hclient] at hid
      cases hid
  · obtain heq | ⟨hnone, -⟩ | ⟨-, hcgi | ⟨config, sid, hclient, hserver⟩⟩ := hcarries id
    · exact h.clients id c (heq.symm.trans hid)
    · rw [hnone] at hid
      cases hid
    · rw [hcgi] at hid
      cases hid
    · rw [hclient] at hid
      cases hid
      exact List.mem_of_getElem? (h.servers sid _ hserver)
  · obtain ⟨hiff, hnext⟩ := hstarting configs
    have hc := hiff.mp hc
    rw [hnext hc]
    exact h.starting configs hc
  · refine (h.started (fun hold => hne (hended hold)) fun configs hc => ?_).trans hle
    exact hstarted configs ((hstarting configs).1.mpr hc)
  · have hold : w.control ≠ .ended := fun hold => hne (hended hold)
    have hlt : id < w.nextId := by
      rcases hc : w.control with configs | _ | _ | _ | _ | _
      · rw [← (hstarting configs).2 hc]
        exact hlt
      all_goals
        refine (List.getElem?_eq_some_iff.mp hid).1.trans_le (h.started hold fun configs => ?_)
        rw [hc]
        exact Control.noConfusion
    have hserver := h.opened hold id hlt c hid
    obtain heq | ⟨-, hno⟩ | ⟨hnew, -⟩ := hcarries id
    · exact heq.trans hserver
    · exact absurd hserver (hno c)
    · exact absurd hnew hlt.ne

theorem Listens.turned {l : Label} (h : Listens ports w) (hloop : LoopInv w)
    (hturn : World.Turned w l w') : Listens ports w' := by
  obtain ⟨config, configs, hc, hc', hnext, hrole⟩ | ⟨hended, hnone⟩ | ⟨hcarries, hle, hstarting⟩ :=
    turned_carries hloop hturn
  · exact h.opens hc hc' hnext hrole
  · refine ⟨fun id c hid => ?_, fun id c hid => ?_, fun configs hc => ?_, fun hne => absurd hended hne,
      fun hne => absurd hended hne⟩
    · rw [hnone] at hid
      cases hid
    · rw [hnone] at hid
      cases hid
    · rw [hended] at hc
      cases hc
  · exact h.carries hcarries hle (turned_ended hturn) hstarting

end Steps

/-- The loop of `Run` has begun, and has not ended. -/
def Control.inLoop : Control → Bool
  | .starting _ | .ended => false
  | _ => true

theorem runsFrom_listens {configFile content : Bytes} {ans : StartAnswers} {w : World}
    {configs : List ServerConfig} (hload : loadFileOrThrowRuntime configFile ans.file = .ok content)
    (hparse : ConfigParser.parse ans.cwd content = .ok configs) (h : w.RunsFrom configFile ans) :
    Listens (portConfigs configs) w := by
  have hinv : Listens (portConfigs configs) w ∧ LoopInv w := by
    apply h.invariant
    · intro w hw
      obtain ⟨content', configs', fd, hload', hparse', rfl⟩ := construct_eq_ok hw
      rw [hload] at hload'
      cases hload'
      rw [hparse] at hparse'
      cases hparse'
      exact ⟨.start _ _ _, start_loopInv ⟨_, _, _, rfl⟩⟩
    · intro w l w' hw _ hst
      obtain ⟨w1, hturn, rfl⟩ := World.step_cases hst
      obtain ⟨hservers, hclients, hstarting, hstarted, hopened⟩ := hw.1.turned hw.2 hturn
      exact ⟨⟨hservers, hclients, hstarting, hstarted, hopened⟩, step_loopInv hw.2 hst⟩
  exact hinv.1

/-- **Who listens.**  In every state of every run a server has the first block of its port, no
two have one port, and a connection has the first block of some port.  As long as the loop runs,
every port of the file has its server, which is in the table and waits for connections. -/
theorem listening {configFile content : Bytes} {ans : StartAnswers} {w : World}
    {configs : List ServerConfig} (hload : loadFileOrThrowRuntime configFile ans.file = .ok content)
    (hparse : ConfigParser.parse ans.cwd content = .ok configs) (h : w.RunsFrom configFile ans) :
    (∀ id s, w.heap id = some (.server s) →
        configs.find? (fun block => block.port = s.config.port) = some s.config) ∧
      (∀ id id' s s', w.heap id = some (.server s) → w.heap id' = some (.server s') →
        s.config.port = s'.config.port → id = id') ∧
      (∀ id c, w.heap id = some (.client c) →
        configs.find? (fun block => block.port = c.config.port) = some c.config) ∧
      (w.control.inLoop = true → ∀ block ∈ configs, ∃ id s, w.heap id = some (.server s) ∧
        s.config.port = block.port ∧ w.sockets[s.fd]? = some id ∧
        w.kernel.Watches s.fd id EPOLLIN) := by
  have hlistens := runsFrom_listens hload hparse h
  -- the sockets of the ports are the first objects made, so that the address is the place
  have hserver : ∀ id s, w.heap id = some (.server s) →
      (portConfigs configs)[id]? = some s.config := fun id s hs =>
    hlistens.servers id s.config (roleOf_of hs)
  refine ⟨fun id s hs => ?_, fun id id' s s' hs hs' hport => ?_, fun id c hc => ?_,
    fun hloop block hblock => ?_⟩
  · exact mem_portConfigs.mp (List.mem_of_getElem? (hserver id s hs))
  · -- the ports are different, so the places are the same
    have hget : ((portConfigs configs).map ServerConfig.port)[id]? = some s.config.port := by
      rw [List.getElem?_map, hserver id s hs]
      rfl
    have hget' : ((portConfigs configs).map ServerConfig.port)[id']? = some s'.config.port := by
      rw [List.getElem?_map, hserver id' s' hs']
      rfl
    refine (List.getElem?_inj ?_ (portConfigs_nodup configs)).mp ?_
    · exact (List.getElem?_eq_some_iff.mp hget).1
    · rw [hget, hget', hport]
  · exact mem_portConfigs.mp (hlistens.clients id c.config (roleOf_of hc))
  · obtain ⟨first, hfirst, hport⟩ := exists_mem_portConfigs hblock
    obtain ⟨id, hget⟩ := List.mem_iff_getElem?.mp hfirst
    -- in the loop the start is over, so every port has its socket
    have hended : w.control ≠ .ended := by
      intro hended
      rw [hended] at hloop
      cases hloop
    have hstarted : (portConfigs configs).length ≤ w.nextId := by
      refine hlistens.started hended fun rest hrest => ?_
      rw [hrest] at hloop
      cases hloop
    have hrole := hlistens.opened hended id
      ((List.getElem?_eq_some_iff.mp hget).1.trans_le hstarted) first hget
    obtain ⟨s, hs, hfirst'⟩ := heap_of_server hrole
    have hreach := h.reachable
    have hfd : w.fdOf id = some s.fd := by
      rw [World.fdOf, hs]
      rfl
    have hwatch : (Socket.server s).core.IsWatched w id :=
      reachable_watched hreach id (Set.notMem_empty id) _ (World.coreOf_of hs)
    refine ⟨id, s, hs, ?_, ((reachable_loopInv hreach).entry s.fd id).mpr hfd, ?_⟩
    · rw [hfirst', hport]
    · exact hwatch.resolve_right fun hclient => Bool.false_ne_true hclient.1

/-- A file with three blocks, two of them for the port 80. -/
def twoPorts : StartAnswers where
  file := ⟨some .regular, some (bytes
    "server \x7b listen 8080; \x7d server \x7b server_name a; \x7d server \x7b server_name b; \x7d")⟩
  cwd := none
  epollCreate := .ok 3
  open_ := [0, 1, 2]
  clock := 0

/-- Its two servers are opened. -/
theorem listening_twoPorts : ∃ (w : World) (configs : List ServerConfig),
    configs.map ServerConfig.port = [8080, 80, 80] ∧ w.sockets.toList = [(4, 0), (5, 1)] ∧
      (∀ id s, w.heap id = some (.server s) →
        configs.find? (fun block => block.port = s.config.port) = some s.config) ∧
      (∀ id id' s s', w.heap id = some (.server s) → w.heap id' = some (.server s') →
        s.config.port = s'.config.port → id = id') ∧
      (∀ id c, w.heap id = some (.client c) →
        configs.find? (fun block => block.port = c.config.port) = some c.config) ∧
      ∀ block ∈ configs, ∃ id s, w.heap id = some (.server s) ∧ s.config.port = block.port ∧
        w.sockets[s.fd]? = some id ∧ w.kernel.Watches s.fd id EPOLLIN := by
  have hrun : ((construct [] twoPorts).toOption.bind fun w => Transition.run World.step w
      [.openServer (some 4) 0 true, .openServer (some 5) 0 true]).map
        (fun w => (w.sockets.toList, w.control.inLoop)) = some ([(4, 0), (5, 1)], true) := by
    decide +kernel
  obtain ⟨w, hw, hstate⟩ := Option.map_eq_some_iff.mp hrun
  obtain ⟨htable, hloop⟩ := Prod.mk.inj hstate
  obtain ⟨content, configs, hload, hparse, hreach⟩ := runsFrom_of_run hw
  have hports : ((loadFileOrThrowRuntime [] twoPorts.file >>= ConfigParser.parse none).map
      fun configs => configs.map ServerConfig.port).toOption = some [8080, 80, 80] := by
    decide +kernel
  have hparse' : ConfigParser.parse none content = .ok configs := hparse
  simp only [bind, Except.bind, hload, hparse'] at hports
  obtain ⟨hfirst, hone, hclients, hall⟩ := listening hload hparse hreach
  exact ⟨w, configs, Option.some.inj hports, htable, hfirst, hone, hclients, hall hloop⟩

end Webserv
