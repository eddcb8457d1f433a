import Fusillade.Bridge.Redirects
import Fusillade.Cli.Config
import Fusillade.Engine.DurationSyntax

/-! The options `jitter` and `drop` on their way to the requests: the configuration, the
places that spawn workers, the registration of a worker's globals and the HTTP paths. -/
namespace Fusillade.Bridge.Chaos

open Cli CookieJar Redirects

inductive Effect where
  | sleep (d : Duration)
  | transmit (hop : Hop)
  deriving DecidableEq

/-- What `register_globals_sync` leaves to the HTTP functions of a worker. -/
structure Globals where
  responseSink : Bool
  ioBridge : Bool
  deriving DecidableEq

/-- The parameters `_jitter` and `_drop` are not used. -/
def registerGlobalsSync (_jitter : Option String) (_drop : Option ℚ) (responseSink ioBridge : Bool) :
    Globals := ⟨responseSink,ioBridge⟩

/-- The four places that spawn a worker: the legacy mode and the kinds of scenario. -/
inductive SpawnSite where
  | legacy
  | closed (scenarioConfig : ScenarioConfig)
  | rampingWorkers (scenarioConfig : ScenarioConfig)
  | arrivalRate (scenarioConfig : ScenarioConfig)

def SpawnSite.spawn (config : Config) : SpawnSite → Globals
  | legacy => registerGlobalsSync config.jitter config.drop (config.responseSink.getD false)
      (config.noPool.getD false)
  | closed scenarioConfig | rampingWorkers scenarioConfig | arrivalRate scenarioConfig =>
    registerGlobalsSync config.jitter config.drop (scenarioConfig.responseSink.getD false)
      (config.noPool.getD false)

variable (crates : Crates)

def Globals.request (globals : Globals) (transport : Transport) (call : Call) (clock : Nat → Reading)
    (jar : crates.Jar) : Outcome crates :=
  let call := { call with responseSink := globals.responseSink }
  if globals.ioBridge then runBridgeRequest crates transport call clock jar
  else executeUreqRequest crates transport call clock jar

variable {crates}

/-- Neither path sleeps or draws: all that a request does is send its hops. -/
def effects (outcome : Outcome crates) : List Effect := outcome.hops.map .transmit

variable (crates)

def session (globals : Globals) (transport : Transport) :
    crates.Jar → List (Call × (Nat → Reading)) → List (List Effect)
  | _, [] => []
  | jar, (call,clock) :: rest =>
    let outcome := globals.request crates transport call clock jar
    effects outcome :: session globals transport outcome.jar rest

def latency (config : Config) : Duration :=
  match config.jitter.map Utils.parseDurationStr with
  | some (.duration d) => d
  | _ => 0

def slept : List Effect → Duration
  | .sleep d :: rest => d + slept rest
  | _ => 0

def Transmitted (trace : List Effect) : Prop := ∃ hop, Effect.transmit hop ∈ trace

/-- A draw below the drop probability drops the request, and what is sent comes late. -/
structure Injected (config : Config) (draw : ℚ) (trace : List Effect) : Prop where
  transmitted : Transmitted trace ↔ ¬draw < config.drop.getD 0
  delayed : Transmitted trace → latency config ≤ slept trace

variable {crates} (transport : Transport) (call : Call) (clock : Nat → Reading)

theorem bridgeLoop_hops (remaining : Nat) (pending : Pending) (jar : crates.Jar) :
    ∃ rest, (bridgeLoop crates transport call clock remaining pending jar).hops =
      pending.hop crates jar :: rest :=
  List.head?_eq_some_iff.mp (bridgeLoop_chase transport call clock remaining pending jar).head

theorem ureqLoop_hops (remaining : Nat) (pending : Pending) (jar : crates.Jar) :
    ∃ rest, (ureqLoop crates transport call clock remaining pending jar).hops =
      pending.hop crates jar :: rest := by
  unfold ureqLoop
  cases remaining with
  | zero =>
    dsimp only
    split
    · exact ⟨[],rfl⟩
    · exact ⟨[],rfl⟩
  | succ remaining =>
    dsimp only
    split
    · split
      · exact ⟨_,rfl⟩
      · exact ⟨[],rfl⟩
    · exact ⟨[],rfl⟩

theorem request_effects (globals : Globals) (jar : crates.Jar) :
    ∃ hop rest, effects (globals.request crates transport call clock jar) =
      .transmit hop :: rest := by
  unfold Globals.request effects
  dsimp only
  split
  · obtain ⟨rest,hops⟩ := bridgeLoop_hops transport _ clock _ _ jar
    exact ⟨_,rest.map .transmit,congrArg (List.map Effect.transmit) hops⟩
  · obtain ⟨rest,hops⟩ := ureqLoop_hops transport _ clock _ _ jar
    exact ⟨_,rest.map .transmit,congrArg (List.map Effect.transmit) hops⟩

/-- A request that is sent at once meets the options only where they ask for nothing. -/
theorem injected_iff (config : Config) (draw : ℚ) (hop : Hop) (rest : List Effect) :
    Injected config draw (.transmit hop :: rest) ↔
      config.drop.getD 0 ≤ draw ∧ latency config = 0 := by
  have sent : Transmitted (.transmit hop :: rest) := ⟨hop,List.mem_cons_self⟩
  constructor
  · rintro ⟨transmitted,delayed⟩
    exact ⟨not_lt.mp (transmitted.mp sent),Nat.le_zero.mp (delayed sent)⟩
  · rintro ⟨kept,none⟩
    exact ⟨iff_of_true sent (not_lt.mpr kept),fun _ => none.le⟩

theorem session_length (globals : Globals) (jar : crates.Jar)
    (calls : List (Call × (Nat → Reading))) :
    (session crates globals transport jar calls).length = calls.length := by
  induction calls generalizing jar with
  | nil => rfl
  | cons call rest ih => exact congrArg Nat.succ (ih _)

theorem session_effects (globals : Globals) (jar : crates.Jar)
    (calls : List (Call × (Nat → Reading))) :
    ∀ trace ∈ session crates globals transport jar calls, ∃ hop rest, trace = .transmit hop :: rest := by
  induction calls generalizing jar with
  | nil => simp [session]
  | cons call rest ih => exact List.forall_mem_cons.mpr ⟨request_effects transport _ _ globals jar,ih _⟩

/-- The options reach no request: a worker meets them exactly where no draw asks for a drop
and no latency is configured. -/
theorem chaos_iff (crates : Crates) (config : Config) (site : SpawnSite) (transport : Transport)
    (draws : Nat → ℚ) (jar : crates.Jar) (calls : List (Call × (Nat → Reading))) :
    (∀ i trace, (session crates (site.spawn config) transport jar calls)[i]? = some trace →
        Injected config (draws i) trace) ↔
      (∀ i < calls.length, config.drop.getD 0 ≤ draws i) ∧ (calls ≠ [] → latency config = 0) := by
  have sent := session_effects transport (site.spawn config) jar calls
  have size := session_length transport (site.spawn config) jar calls
  generalize session crates (site.spawn config) transport jar calls = traces at sent size
  constructor
  · intro injected
    have each : ∀ i < calls.length, config.drop.getD 0 ≤ draws i ∧ latency config = 0 := by
      intro i inside
      have found := List.getElem?_eq_getElem (size.symm ▸ inside)
      obtain ⟨hop,rest,trace⟩ := sent _ (List.mem_of_getElem? found)
      exact (injected_iff config (draws i) hop rest).mp (trace ▸ injected i _ found)
    exact ⟨fun i inside => (each i inside).1,
      fun some => (each 0 (List.length_pos_of_ne_nil some)).2⟩
  · rintro ⟨kept,undelayed⟩ i trace found
    obtain ⟨hop,rest,rfl⟩ := sent trace (List.mem_of_getElem? found)
    have inside : i < calls.length := size ▸ (List.getElem?_eq_some_iff.mp found).1
    have some : calls ≠ [] := List.ne_nil_of_length_pos (Nat.zero_lt_of_lt inside)
    exact (injected_iff config (draws i) hop rest).mpr ⟨kept i inside,undelayed some⟩

/-- Every request is to be dropped, and half a second late at that. -/
def chaotic : Config := { jitter := some "500ms", drop := some 1 }

theorem options_ignored :
    session hostCrates (SpawnSite.legacy.spawn chaotic) (fun _ => .ok ⟨200,[],[]⟩) ([] : List HostCookie)
      [({ method := "GET", url := "https://shop.test/" },fun _ => {})] =
        [[.transmit ⟨"GET","https://shop.test/",[],""⟩]] ∧
    latency chaotic = Duration.fromMillis 500 ∧
    ¬Injected chaotic (1/2) [.transmit ⟨"GET","https://shop.test/",[],""⟩] := by
  refine ⟨by decide +kernel,by decide +kernel,?_⟩
  intro injected
  exact injected.transmitted.mp ⟨_,List.mem_cons_self⟩ (by decide +kernel)

end Fusillade.Bridge.Chaos
