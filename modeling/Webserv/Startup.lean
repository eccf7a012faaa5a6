/-
Webserv/Startup.lean

`Webserv(config_file)`: from a configuration file to the servers that are to be opened.

The constructor reads the file, keeps the first server of every port, and opens the servers
in the order of their ports.  What comes behind `epoll_create` are steps of the event loop.
-/
import Webserv.ConfigParser
import Webserv.EventLoop

namespace Webserv

/-! ### The file -/

/-- The answers of the system to `LoadFileOrThrowRuntime`. -/
structure FileAnswers where
  /-- `stat`; `none` for -1 -/
  stat : Option FileKind
  /-- `std::ifstream`: what the file holds, if it can be opened -/
  ifstream : Option Bytes

/-- `ConfigParser::LoadFileOrThrowRuntime`: the text of the file. -/
def loadFileOrThrowRuntime (filename : Bytes) (ans : FileAnswers) : Except ConfigError Bytes :=
  match ans.stat with
  | none => .error (.runtimeError (bytes "File does not exist: " ++ filename))
  | some .directory => .error (.runtimeError (filename ++ bytes " is a directory"))
  | some _ =>
      match ans.ifstream with
      | none => .error (.runtimeError (bytes "Failed to open file: " ++ filename))
      | some content => .ok content

/-! ### Ports -/

/-- `port_to_server_configs_`. -/
abbrev PortConfigs := Std.ExtTreeMap Nat ServerConfig compare

/-- `InitServersFromConfigs`; the warning for a port that is there already is left out. -/
def initServersFromConfigs (configs : List ServerConfig) : PortConfigs :=
  configs.foldl (fun ports server =>
    if server.port ∈ ports then ports else ports.insert server.port server) ∅

/-- `FindServerConfigByPort`. -/
def findServerConfigByPort (ports : PortConfigs) (port : Nat) : Option ServerConfig := ports[port]?

/-- The servers in the order in which the constructor opens them. -/
def portConfigs (configs : List ServerConfig) : List ServerConfig :=
  (initServersFromConfigs configs).toList.map Prod.snd

/-- **The first server of a port** is the one that is kept. -/
theorem findServerConfigByPort_eq (configs : List ServerConfig) (port : Nat) :
    findServerConfigByPort (initServersFromConfigs configs) port =
      configs.find? fun server => server.port = port := by
  have hfold : ∀ ports : PortConfigs, (configs.foldl (fun ports server =>
      if server.port ∈ ports then ports else ports.insert server.port server) ports)[port]? =
        ports[port]?.or (configs.find? fun server => server.port = port) := by
    induction configs with
    | nil => exact fun ports => (Option.or_none).symm
    | cons server configs ih =>
        intro ports
        rw [List.foldl_cons, ih]
        by_cases hport : server.port = port
        · subst hport
          rw [List.find?_cons_of_pos (by simp)]
          split_ifs with hmem
          · obtain ⟨first, hfirst⟩ := Option.isSome_iff_exists.mp
              (Std.ExtTreeMap.isSome_getElem?_iff_mem.mpr hmem)
            rw [hfirst]
            rfl
          · rw [Std.ExtTreeMap.getElem?_insert_self, Std.ExtTreeMap.getElem?_eq_none hmem]
            rfl
        · rw [List.find?_cons_of_neg (by simpa using hport)]
          split_ifs
          · rfl
          · rw [Std.ExtTreeMap.getElem?_insert, if_neg]
            simpa using hport
  rw [findServerConfigByPort, initServersFromConfigs, hfold, Std.ExtTreeMap.getElem?_empty]
  rfl

section Ports

variable {configs : List ServerConfig} {config : ServerConfig}

theorem mem_initServers {port : Nat} :
    (port, config) ∈ (initServersFromConfigs configs).toList ↔
      configs.find? (fun server => server.port = port) = some config := by
  rw [Std.ExtTreeMap.mem_toList_iff_getElem?_eq_some, ← findServerConfigByPort_eq]
  rfl

/-- A server is found under its own port. -/
theorem port_of_mem {entry : Nat × ServerConfig}
    (h : entry ∈ (initServersFromConfigs configs).toList) : entry.2.port = entry.1 := by
  have hfound := List.find?_some (mem_initServers.mp h)
  exact of_decide_eq_true hfound

theorem mem_portConfigs :
    config ∈ portConfigs configs ↔
      configs.find? (fun server => server.port = config.port) = some config := by
  rw [portConfigs, List.mem_map]
  constructor
  · rintro ⟨⟨port, config⟩, hmem, rfl⟩
    have hport : config.port = port := port_of_mem hmem
    rw [hport]
    exact mem_initServers.mp hmem
  · intro hfound
    exact ⟨_, mem_initServers.mpr hfound, rfl⟩

/-- No port is opened twice. -/
theorem portConfigs_nodup (configs : List ServerConfig) :
    ((portConfigs configs).map ServerConfig.port).Nodup := by
  have hkeys : (portConfigs configs).map ServerConfig.port =
      (initServersFromConfigs configs).toList.map Prod.fst := by
    rw [portConfigs, List.map_map]
    exact List.map_congr_left fun entry hentry => port_of_mem hentry
  rw [hkeys, List.Nodup, List.pairwise_map]
  refine (initServersFromConfigs configs).distinct_keys_toList.imp fun hne heq => hne ?_
  rw [heq]
  exact Nat.compare_eq_eq.mpr rfl

/-- Every port of the file is opened. -/
theorem exists_mem_portConfigs (h : config ∈ configs) :
    ∃ first ∈ portConfigs configs, first.port = config.port := by
  rcases hfound : configs.find? (fun server => server.port = config.port) with - | first
  · have hnone := List.find?_eq_none.mp hfound config h
    simp at hnone
  · have hport := List.find?_some hfound
    have hport : first.port = config.port := of_decide_eq_true hport
    refine ⟨first, mem_portConfigs.mpr ?_, hport⟩
    rw [hport]
    exact hfound

end Ports

/-! ### The constructor -/

/-- The answers of the system to the constructor, up to the first server. -/
structure StartAnswers where
  file : FileAnswers
  /-- `getcwd` -/
  cwd : Option Bytes
  /-- `epoll_create`, or the text of its error -/
  epollCreate : Except Bytes Fd
  /-- the other descriptors that are open -/
  open_ : List Fd
  clock : Int

/-- `Webserv(config_file)`, up to the first server. -/
def construct (configFile : Bytes) (ans : StartAnswers) : Except ConfigError World := do
  let content ← loadFileOrThrowRuntime configFile ans.file
  let configs ← ConfigParser.parse ans.cwd content
  match ans.epollCreate with
  | .error text => .error (.runtimeError (bytes "epoll_create() failed. " ++ text))
  | .ok fd => .ok (World.start (portConfigs configs) (fd :: ans.open_) ans.clock)

/-- **What the constructor begins with.** -/
theorem construct_eq_ok {configFile : Bytes} {ans : StartAnswers} {w : World}
    (h : construct configFile ans = .ok w) :
    ∃ content configs fd, loadFileOrThrowRuntime configFile ans.file = .ok content ∧
      ConfigParser.parse ans.cwd content = .ok configs ∧
      w = World.start (portConfigs configs) (fd :: ans.open_) ans.clock := by
  rw [construct] at h
  rcases hload : loadFileOrThrowRuntime configFile ans.file with e | content
  · rw [hload] at h
    cases h
  · simp only [bind, Except.bind, hload] at h
    rcases hparse : ConfigParser.parse ans.cwd content with e | configs
    · rw [hparse] at h
      cases h
    · simp only [hparse] at h
      rcases hcreate : ans.epollCreate with text | fd
      · rw [hcreate] at h
        cases h
      · rw [hcreate] at h
        cases h
        exact ⟨content, configs, fd, rfl, hparse, rfl⟩

/-- A state of a run of the program with this configuration file. -/
abbrev World.RunsFrom (w : World) (configFile : Bytes) (ans : StartAnswers) : Prop :=
  Transition.Reachable World.step (fun _ _ => True) (fun w => construct configFile ans = .ok w) w

theorem World.RunsFrom.reachable {w : World} {configFile : Bytes} {ans : StartAnswers}
    (h : w.RunsFrom configFile ans) : w.Reachable := by
  refine h.invariant (fun w hw => ?_) fun w l w' hw _ hst => .next hw trivial hst
  obtain ⟨content, configs, fd, -, -, rfl⟩ := construct_eq_ok hw
  exact .start ⟨_, _, _, rfl⟩

/-- The file of a run has been loaded and parsed. -/
theorem World.RunsFrom.loads {w : World} {configFile : Bytes} {ans : StartAnswers}
    (h : w.RunsFrom configFile ans) : ∃ content configs,
      loadFileOrThrowRuntime configFile ans.file = .ok content ∧
        ConfigParser.parse ans.cwd content = .ok configs := by
  refine h.invariant (I := fun _ => ∃ content configs,
    loadFileOrThrowRuntime configFile ans.file = .ok content ∧
      ConfigParser.parse ans.cwd content = .ok configs) (fun w hw => ?_) fun _ _ _ hloads _ _ => hloads
  obtain ⟨content, configs, -, hload, hparse, -⟩ := construct_eq_ok hw
  exact ⟨content, configs, hload, hparse⟩

/-- What the constructor and some steps have reached is a state of a run. -/
theorem runsFrom_of_run {configFile : Bytes} {ans : StartAnswers} {ls : List Label} {w : World}
    (h : ((construct configFile ans).toOption.bind fun w => Transition.run World.step w ls) = some w) :
    ∃ content configs, loadFileOrThrowRuntime configFile ans.file = .ok content ∧
      ConfigParser.parse ans.cwd content = .ok configs ∧ w.RunsFrom configFile ans := by
  obtain ⟨w0, hw0, hw⟩ := Option.bind_eq_some_iff.mp h
  rcases hstart : construct configFile ans with e | w1
  · rw [hstart] at hw0
    cases hw0
  · rw [hstart] at hw0
    cases hw0
    obtain ⟨content, configs, -, hload, hparse, -⟩ := construct_eq_ok hstart
    exact ⟨content, configs, hload, hparse,
      .run_along (.start hstart) (Transition.along_true _ _ _) hw⟩

end Webserv
