import KioExtras.Smb.ListDir

/-!
Listing the root of the network: the three discoverers that `SMBWorker::listDir` starts.

libsmbclient, DNS-SD and WS-Discovery run in one event loop. Each decides for itself whether it
is finished; when one of them says so, the loop ends if all three are. What they discover goes
through the list of names to the entries that wait for the timer.
-/

namespace KioExtras.Smb.Discoverers

open KioExtras.Lib.Run KioExtras.Lib.Firsts
open KioExtras.Smb.ListDir (UDSEntry Discovery Env Content Deduplicated S_IFDIR)

/-- A service as the browser reports it. Two are the same when these agree. -/
structure RemoteService where
  serviceName : String
  type : String
  domain : String
  deriving DecidableEq

/-- A service as WS-Discovery reports it; of an address only the host is looked at. -/
structure TargetService where
  endpointReference : String
  xAddrList : List String

/-- `QUrl::url` of a host with a port, and the name of a device that does not tell its own. -/
structure Texts where
  url : String → Option ℤ → String
  unknownDevice : String → String

/-! ### The entries -/

def serverEntry (udsName url : String) : UDSEntry :=
  (UDSEntry.insertStrings ⟨[], []⟩
    [(.UDS_NAME, udsName), (.UDS_ICON_NAME, "network-server"), (.UDS_URL, url),
      (.UDS_MIME_TYPE, "application/x-smb-server")]).insertNumbers
    [(.UDS_FILE_TYPE, S_IFDIR), (.UDS_ACCESS, 0o555)]

def defaultPort : ℤ := 445

def DNSSDDiscovery (texts : Texts) (service : RemoteService) (hostName : String) (port : ℤ) :
    Discovery where
  m_name := service.serviceName
  m_entry := serverEntry service.serviceName
    (texts.url hostName (if port > 0 ∧ port ≠ defaultPort then some port else none))
  name_eq := rfl

def WSDiscovery (texts : Texts) (computer remote : String) : Discovery where
  m_name := computer
  m_entry := serverEntry computer (texts.url remote none)
  name_eq := rfl

/-- The end of `PBSDResolver::run`. `computer` is what the device or, failing that, the lookup of
its host has told, empty where neither has. -/
def pbsdDiscovery (texts : Texts) (host computer : String) : Discovery :=
  if computer = "" then WSDiscovery texts (texts.unknownDevice host) host
  else
    WSDiscovery texts computer
      (if ".local".toList <:+ computer.toList then computer else computer ++ ".kio-discovery-wsd")

/-! ### DNS-SD -/

/-- `resolved` are the reports so far, by the place of the service in `m_services`. -/
structure DNSSDDiscoverer where
  m_services : List RemoteService
  m_resolvedCount : ℕ
  m_disconnected : Bool
  resolved : List ℕ

def DNSSDDiscoverer.isFinished (d : DNSSDDiscoverer) : Bool :=
  d.m_disconnected && decide (d.m_services.length = d.m_resolvedCount)

/-! ### WS-Discovery -/

structure WSDResolver where
  m_endpoint : String
  m_stopTimer : Bool
  deleteLater : Bool

/-- `queued` says that the call of `run` is still posted. -/
structure PBSDResolver where
  m_endpointUrl : String
  m_destination : String
  queued : Bool

/-- Timers are given by whether they run; `alive` are the resolvers that have not been deleted,
those taken out of the table included. -/
structure WSDiscoverer where
  m_startedTimer : Bool
  m_probeMatchTimer : Bool
  m_seenEndpoints : List String
  m_resolvers : List PBSDResolver
  m_resolvedCount : ℕ
  alive : List WSDResolver

namespace WSDiscoverer

/-- A resolver is deleted when it is taken out of the table. -/
def m_endpointResolvers (w : WSDiscoverer) : List WSDResolver :=
  w.alive.filter fun resolver => !resolver.deleteLater

def isFinished (w : WSDiscoverer) : Bool :=
  let notProbing := !w.m_probeMatchTimer
  let notWaitingForWSDResolve := w.m_endpointResolvers.isEmpty
  let notWaitingForPBSD := decide (w.m_resolvers.length = w.m_resolvedCount)
  w.m_startedTimer && (notProbing && notWaitingForWSDResolve && notWaitingForPBSD)

/-- `fromName` says which hosts can be looked up at the time. -/
def resolveReceived (fromName : String → Bool) (w : WSDiscoverer) (service : TargetService) :
    WSDiscoverer :=
  if service.endpointReference ∈ w.m_seenEndpoints then w
  else
    let w := { w with m_seenEndpoints := w.m_seenEndpoints ++ [service.endpointReference] }
    match service.xAddrList.find? fromName with
    | none => w
    | some addr =>
      { w with m_resolvers := w.m_resolvers ++ [⟨addr, service.endpointReference, true⟩] }

def matchReceived (fromName : String → Bool) (w : WSDiscoverer) (matchedService : TargetService) :
    WSDiscoverer :=
  if w.m_probeMatchTimer = false then w
  else if matchedService.xAddrList = [] then
    let endpoint := matchedService.endpointReference
    if endpoint ∈ w.m_seenEndpoints ∨
        endpoint ∈ w.m_endpointResolvers.map WSDResolver.m_endpoint then w
    else { w with alive := w.alive ++ [⟨endpoint, true, false⟩] }
  else resolveReceived fromName w matchedService

def stopProbing (w : WSDiscoverer) : WSDiscoverer :=
  { w with m_startedTimer := true, m_probeMatchTimer := false }

def takeEndpoint (endpoint : String) (resolver : WSDResolver) : WSDResolver :=
  if resolver.m_endpoint = endpoint then { resolver with deleteLater := true } else resolver

/-- `WSDResolver::stop`, and what `stopped` is connected to: the resolver in the table is taken,
whichever has the endpoint. -/
def stopResolver (w : WSDiscoverer) (i : ℕ) : WSDiscoverer :=
  match w.alive[i]? with
  | none => w
  | some resolver => { w with
      alive := (w.alive.set i { resolver with m_stopTimer := false }).map
        (takeEndpoint resolver.m_endpoint) }

/-- A resolver may hear a match as long as it has not been deleted, its timeout past or not. -/
def resolveMatchReceived (fromName : String → Bool) (w : WSDiscoverer) (i : ℕ)
    (service : TargetService) : WSDiscoverer :=
  (resolveReceived fromName w service).stopResolver i

def pbsdResolved (w : WSDiscoverer) (i : ℕ) (resolver : PBSDResolver) : WSDiscoverer :=
  { w with
    m_resolvers := w.m_resolvers.set i { resolver with queued := false }
    m_resolvedCount := w.m_resolvedCount + 1 }

end WSDiscoverer

/-! ### The event loop -/

/-- `loop` has the discoverer of libsmbclient and what `listDir` keeps. -/
structure State where
  loop : ListDir.State
  dnssd : DNSSDDiscoverer
  wsd : WSDiscoverer

/-- `reported` says that `resolveAsync` reports before it returns, and what. -/
inductive Label
  | loopEvent
  | sendTimer
  | serviceAdded (service : RemoteService) (reported : Option (String × ℤ))
  | browsingFinished
  | resolved (i : ℕ) (hostName : String) (port : ℤ)
  | probeMatch (fromName : String → Bool) (service : TargetService)
  | probeTimeout
  | resolveMatch (fromName : String → Bool) (i : ℕ) (service : TargetService)
  | resolveTimeout (i : ℕ)
  | deferredDelete (i : ℕ)
  | pbsdRun (i : ℕ) (computer : String)

section loop

variable (env : Env) (texts : Texts)

/-- What `maybeFinished` asks the other discoverers. -/
def others (s : State) : List Bool := [s.dnssd.isFinished, s.wsd.isFinished]

def newDiscovery (s : State) (discovery : Discovery) : State :=
  { s with loop := ListDir.appendDiscovery env s.loop discovery }

def maybeFinished (s : State) : State :=
  { s with loop := ListDir.maybeFinished { s.loop with others := others s } }

def dnssdMaybeFinish (s : State) : State :=
  if s.dnssd.isFinished = true then maybeFinished s else s

def wsdMaybeFinish (s : State) : State :=
  if s.wsd.isFinished = true then maybeFinished s else s

/-- What `resolved` of a service is connected to. -/
def dnssdResolved (s : State) (i : ℕ) (service : RemoteService) (hostName : String) (port : ℤ) :
    State :=
  let s := { s with dnssd := { s.dnssd with
    m_resolvedCount := s.dnssd.m_resolvedCount + 1
    resolved := s.dnssd.resolved ++ [i] } }
  dnssdMaybeFinish (newDiscovery env s (DNSSDDiscovery texts service hostName port))

/-- The service is appended after `resolveAsync`. -/
def serviceAdded (s : State) (service : RemoteService) (reported : Option (String × ℤ)) : State :=
  if service ∈ s.dnssd.m_services then s
  else
    let s :=
      match reported with
      | none => s
      | some (hostName, port) =>
        dnssdResolved env texts s s.dnssd.m_services.length service hostName port
    { s with dnssd := { s.dnssd with m_services := s.dnssd.m_services ++ [service] } }

def dnssdStop (s : State) : State :=
  dnssdMaybeFinish { s with dnssd := { s.dnssd with m_disconnected := true } }

/-- What `resolved` of a resolver of metadata is connected to. -/
def pbsdRun (s : State) (i : ℕ) (resolver : PBSDResolver) (computer : String) : State :=
  let s := { s with wsd := s.wsd.pbsdResolved i resolver }
  wsdMaybeFinish (newDiscovery env s (pbsdDiscovery texts resolver.m_endpointUrl computer))

def handle (s : State) : Label → Option State
  | .loopEvent =>
    if s.loop.posted = true then
      some { s with loop := ListDir.customEvent env { s.loop with others := others s } }
    else none
  | .sendTimer => some { s with loop := ListDir.flushEntries s.loop }
  | .serviceAdded service reported =>
    if s.dnssd.m_disconnected = false then some (serviceAdded env texts s service reported)
    else none
  | .browsingFinished => if s.dnssd.m_disconnected = false then some (dnssdStop s) else none
  | .resolved i hostName port =>
    (s.dnssd.m_services[i]?).map fun service => dnssdResolved env texts s i service hostName port
  | .probeMatch fromName service => some { s with wsd := s.wsd.matchReceived fromName service }
  | .probeTimeout =>
    if s.wsd.m_probeMatchTimer = true then some (wsdMaybeFinish { s with wsd := s.wsd.stopProbing })
    else none
  | .resolveMatch fromName i service =>
    if i < s.wsd.alive.length then
      some (wsdMaybeFinish { s with wsd := s.wsd.resolveMatchReceived fromName i service })
    else none
  | .resolveTimeout i =>
    if (s.wsd.alive[i]?).any WSDResolver.m_stopTimer = true then
      some (wsdMaybeFinish { s with wsd := s.wsd.stopResolver i })
    else none
  | .deferredDelete i =>
    if (s.wsd.alive[i]?).any WSDResolver.deleteLater = true then
      some { s with wsd := { s.wsd with alive := s.wsd.alive.eraseIdx i } }
    else none
  | .pbsdRun i computer =>
    match s.wsd.m_resolvers[i]? with
    | some resolver =>
      if resolver.queued = true then some (pbsdRun env texts s i resolver computer) else none
    | none => none

def step (s : State) (l : Label) : Option State :=
  if s.loop.quit = false then handle env texts s l else none

end loop

def root : SMBUrl := ⟨"smb", "", "/", []⟩

example : root.getType = .ENTIRE_NETWORK := by decide

/-- The loop is entered when all three have been started. -/
def initial : State where
  loop := ListDir.initial root
  dnssd := ⟨[], 0, false, []⟩
  wsd := ⟨true, true, [], [], 0, []⟩

/-! ### What is to hold -/

/-- All that has been started is over: the listing, the browsing with every resolution, the probing
with every request for an address and for metadata. -/
structure Done (s : State) : Prop where
  listed : s.loop.m_finished = true
  browsed : s.dnssd.m_disconnected = true
  resolved : ∀ i < s.dnssd.m_services.length, i ∈ s.dnssd.resolved
  probed : s.wsd.m_probeMatchTimer = false
  located : s.wsd.m_endpointResolvers = []
  answered : ∀ resolver ∈ s.wsd.m_resolvers, resolver.queued = false

/-- The events that are bound to come: what is posted, the timers but the one of the list, the end
of the browsing and the first report of a resolution. -/
def Due (s : State) : Label → Prop
  | .loopEvent => s.loop.posted = true
  | .browsingFinished => s.dnssd.m_disconnected = false
  | .resolved i _ _ => i < s.dnssd.m_services.length ∧ i ∉ s.dnssd.resolved
  | .probeTimeout => s.wsd.m_probeMatchTimer = true
  | .resolveTimeout i => (s.wsd.alive[i]?).any WSDResolver.m_stopTimer = true
  | .pbsdRun i _ => (s.wsd.m_resolvers[i]?).any PBSDResolver.queued = true
  | _ => False

/-- The loop ends when all is over and not before, each new name is passed on once and before the
end, and until then something is bound to come. -/
structure Settled (env : Env) (s : State) : Prop where
  notEarly : s.loop.quit = true → Done s
  once : s.loop.listEntries.flatten ++ s.loop.list =
    (firsts (ListDir.key env) [] s.loop.emitted).map Discovery.toEntry
  passedOn : s.loop.quit = true → s.loop.listEntries.flatten =
    (firsts (ListDir.key env) [] s.loop.emitted).map Discovery.toEntry
  goesOn : s.loop.quit = false → ∃ l, Due s l

def ReportsOnce (s : State) : Label → Prop
  | .resolved i _ _ => i ∉ s.dnssd.resolved
  | _ => True

instance decidableReportsOnce (s : State) (l : Label) : Decidable (ReportsOnce s l) :=
  match l with
  | .resolved i _ _ => inferInstanceAs (Decidable (i ∉ s.dnssd.resolved))
  | .loopEvent | .sendTimer | .serviceAdded _ _ | .browsingFinished | .probeMatch _ _
  | .probeTimeout | .resolveMatch _ _ _ | .resolveTimeout _ | .deferredDelete _
  | .pbsdRun _ _ => .isTrue trivial

/-! ### Counting -/

structure Counted (d : DNSSDDiscoverer) : Prop where
  nodup : d.resolved.Nodup
  bound : ∀ i ∈ d.resolved, i < d.m_services.length
  count : d.m_resolvedCount = d.resolved.length

/-- The counter of WS-Discovery counts the answers, and what is in its table has a timer. -/
structure Kept (w : WSDiscoverer) : Prop where
  started : w.m_startedTimer = true
  running : ∀ resolver ∈ w.alive, resolver.deleteLater = false → resolver.m_stopTimer = true
  count : w.m_resolvedCount = w.m_resolvers.countP fun resolver => !resolver.queued

lemma length_eq_iff {n : ℕ} {places : List ℕ} (hnodup : places.Nodup)
    (hbound : ∀ i ∈ places, i < n) : n = places.length ↔ ∀ i < n, i ∈ places := by
  have hsub : places.toFinset ⊆ Finset.range n := by
    intro i hi
    exact Finset.mem_range.mpr (hbound i (List.mem_toFinset.mp hi))
  have hcard : places.toFinset.card = places.length := List.toFinset_card_of_nodup hnodup
  constructor
  · intro heq i hi
    have hall : places.toFinset = Finset.range n := by
      apply Finset.eq_of_subset_of_card_le hsub
      rw [Finset.card_range, hcard, ← heq]
    rw [← List.mem_toFinset, hall]
    exact Finset.mem_range.mpr hi
  · intro hall
    have hsup : Finset.range n ⊆ places.toFinset := by
      intro i hi
      exact List.mem_toFinset.mpr (hall i (Finset.mem_range.mp hi))
    calc n = (Finset.range n).card := (Finset.card_range n).symm
      _ = places.toFinset.card := congrArg Finset.card (Finset.Subset.antisymm hsup hsub)
      _ = places.length := hcard

variable {d : DNSSDDiscoverer} {w : WSDiscoverer} {i : ℕ} {s : State}

lemma Counted.isFinished_iff (h : Counted d) :
    d.isFinished = true ↔ d.m_disconnected = true ∧ ∀ i < d.m_services.length, i ∈ d.resolved := by
  unfold DNSSDDiscoverer.isFinished
  rw [Bool.and_eq_true, decide_eq_true_eq, h.count, length_eq_iff h.nodup h.bound]

lemma Kept.isFinished_iff (h : Kept w) :
    w.isFinished = true ↔ w.m_probeMatchTimer = false ∧ w.m_endpointResolvers = [] ∧
      ∀ resolver ∈ w.m_resolvers, resolver.queued = false := by
  have hcount : w.m_resolvers.length = w.m_resolvedCount ↔
      ∀ resolver ∈ w.m_resolvers, resolver.queued = false := by
    rw [h.count, eq_comm, List.countP_eq_length]
    simp only [Bool.not_eq_true']
  unfold WSDiscoverer.isFinished
  simp only [h.started, Bool.true_and, Bool.and_eq_true, Bool.not_eq_true', List.isEmpty_iff,
    decide_eq_true_eq, hcount, and_assoc]

/-! ### WS-Discovery keeps count -/

lemma Kept.resolveReceived (h : Kept w) (fromName : String → Bool) (service : TargetService) :
    Kept (w.resolveReceived fromName service) := by
  unfold WSDiscoverer.resolveReceived
  split_ifs with hseen
  · exact h
  · dsimp only
    split
    · exact ⟨h.started, h.running, h.count⟩
    · refine ⟨h.started, h.running, ?_⟩
      rw [List.countP_append, ← h.count]
      rfl

lemma Kept.matchReceived (h : Kept w) (fromName : String → Bool) (service : TargetService) :
    Kept (w.matchReceived fromName service) := by
  unfold WSDiscoverer.matchReceived
  dsimp only
  split_ifs with hlate haddr hknown
  · exact h
  · exact h
  · refine ⟨h.started, ?_, h.count⟩
    intro resolver hmem htaken
    rcases List.mem_append.mp hmem with hold | hnew
    · exact h.running resolver hold htaken
    · rw [List.mem_singleton.mp hnew]
  · exact h.resolveReceived fromName service

lemma Kept.stopProbing (h : Kept w) : Kept w.stopProbing :=
  ⟨rfl, h.running, h.count⟩

lemma Kept.stopResolver (h : Kept w) (i : ℕ) : Kept (w.stopResolver i) := by
  unfold WSDiscoverer.stopResolver
  split
  · exact h
  · rename_i stopped hi
    refine ⟨h.started, ?_, h.count⟩
    intro resolver hmem htaken
    obtain ⟨before, hbefore, rfl⟩ := List.mem_map.mp hmem
    by_cases hend : before.m_endpoint = stopped.m_endpoint
    · rw [WSDiscoverer.takeEndpoint, if_pos hend] at htaken
      exact absurd (htaken : true = false) nofun
    · rw [WSDiscoverer.takeEndpoint, if_neg hend] at htaken ⊢
      rcases List.mem_or_eq_of_mem_set hbefore with hold | rfl
      · exact h.running before hold htaken
      · exact absurd rfl hend

lemma Kept.resolveMatchReceived (h : Kept w) (fromName : String → Bool) (i : ℕ)
    (service : TargetService) : Kept (w.resolveMatchReceived fromName i service) :=
  (h.resolveReceived fromName service).stopResolver i

lemma Kept.delete (h : Kept w) (i : ℕ) : Kept { w with alive := w.alive.eraseIdx i } :=
  ⟨h.started, fun resolver hmem => h.running resolver (List.mem_of_mem_eraseIdx hmem), h.count⟩

/-- An answer is counted once, since `run` was posted once. -/
lemma Kept.pbsdResolved (h : Kept w) {resolver : PBSDResolver}
    (hi : w.m_resolvers[i]? = some resolver) (hqueued : resolver.queued = true) :
    Kept (w.pbsdResolved i resolver) := by
  refine ⟨h.started, h.running, ?_⟩
  obtain ⟨hlt, hget⟩ := List.getElem?_eq_some_iff.mp hi
  have hset := List.countP_set (p := fun r : PBSDResolver => !r.queued)
    (a := { resolver with queued := false }) hlt
  have hold : (!(w.m_resolvers[i]).queued) = false := by
    rw [hget, hqueued]
    rfl
  rw [hold] at hset
  simp only [Bool.false_eq_true, if_false, Nat.sub_zero, Bool.not_false, if_true] at hset
  calc w.m_resolvedCount + 1
      = w.m_resolvers.countP (fun r => !r.queued) + 1 := congrArg (· + 1) h.count
    _ = (w.m_resolvers.set i { resolver with queued := false }).countP (fun r => !r.queued) :=
        hset.symm

lemma matchReceived_isFinished (w : WSDiscoverer) (fromName : String → Bool)
    (service : TargetService) : (w.matchReceived fromName service).isFinished = w.isFinished := by
  have hprobing : ∀ w : WSDiscoverer, w.m_probeMatchTimer = true → w.isFinished = false := by
    intro w hactive
    simp [WSDiscoverer.isFinished, hactive]
  have hresolve : ∀ w : WSDiscoverer,
      (w.resolveReceived fromName service).m_probeMatchTimer = w.m_probeMatchTimer := by
    intro w
    unfold WSDiscoverer.resolveReceived
    split_ifs
    · rfl
    · dsimp only
      split <;> rfl
  unfold WSDiscoverer.matchReceived
  dsimp only
  split_ifs with hlate haddr hknown
  · rfl
  · rfl
  · rw [Bool.not_eq_false] at hlate
    rw [hprobing w hlate]
    exact hprobing _ hlate
  · rw [Bool.not_eq_false] at hlate
    rw [hprobing w hlate]
    exact hprobing _ ((hresolve w).trans hlate)

lemma filter_eraseIdx {α : Type*} {p : α → Bool} {l : List α}
    (h : (l[i]?).any (fun a => !p a) = true) : (l.eraseIdx i).filter p = l.filter p := by
  induction l generalizing i with
  | nil => rfl
  | cons a l ih =>
    cases i with
    | zero =>
      have ha : p a = false := by simpa using h
      rw [List.eraseIdx_cons_zero, List.filter_cons, if_neg (by rw [ha]; decide)]
    | succ i =>
      rw [List.eraseIdx_cons_succ, List.filter_cons, List.filter_cons, ih (by simpa using h)]

lemma delete_isFinished (h : (w.alive[i]?).any WSDResolver.deleteLater = true) :
    WSDiscoverer.isFinished { w with alive := w.alive.eraseIdx i } = w.isFinished := by
  have htable : (w.alive.eraseIdx i).filter (fun resolver => !resolver.deleteLater) =
      w.m_endpointResolvers := filter_eraseIdx (by simpa using h)
  unfold WSDiscoverer.isFinished
  dsimp only [WSDiscoverer.m_endpointResolvers] at htable ⊢
  rw [htable]

/-! ### DNS-SD keeps count -/

lemma Counted.resolved (h : Counted d) (hi : i < d.m_services.length) (hfirst : i ∉ d.resolved) :
    Counted { d with m_resolvedCount := d.m_resolvedCount + 1, resolved := d.resolved ++ [i] } := by
  refine ⟨?_, ?_, ?_⟩
  · rw [List.nodup_append]
    refine ⟨h.nodup, List.nodup_singleton i, ?_⟩
    intro a ha b hb heq
    rw [List.mem_singleton.mp hb] at heq
    exact hfirst (heq ▸ ha)
  · intro a ha
    rcases List.mem_append.mp ha with hold | hnew
    · exact h.bound a hold
    · rw [List.mem_singleton.mp hnew]
      exact hi
  · simp [h.count]

lemma Counted.append (h : Counted d) (service : RemoteService) :
    Counted { d with m_services := d.m_services ++ [service] } := by
  refine ⟨h.nodup, ?_, h.count⟩
  intro i hi
  have hlt := h.bound i hi
  simp only [List.length_append, List.length_singleton]
  omega

lemma Counted.stop (h : Counted d) :
    Counted { d with m_disconnected := true } := ⟨h.nodup, h.bound, h.count⟩

/-! ### The end of the loop -/

/-- The loop has ended if all three say that they are finished. -/
structure Watched (env : Env) (s : State) : Prop where
  dedup : Deduplicated env s.loop
  posted : s.loop.posted = !s.loop.m_finished
  quit : s.loop.quit = (s.loop.m_finished && (others s).all id)
  flushed : s.loop.quit = true → s.loop.list = []

/-- What holds while an event is handled: the loop may have to end. -/
structure Handling (env : Env) (s : State) : Prop where
  dedup : Deduplicated env s.loop
  posted : s.loop.posted = !s.loop.m_finished
  quit : s.loop.quit = false

variable {env : Env} {texts : Texts}

lemma Handling.newDiscovery (h : Handling env s) (discovery : Discovery) :
    Handling env (newDiscovery env s discovery) := by
  obtain ⟨-, -, hfin, hposted, -, hquit, -, -⟩ :=
    ListDir.foldl_appendDiscovery_frame env s.loop [discovery]
  refine ⟨ListDir.appendDiscovery_deduplicated h.dedup discovery, ?_, hquit.trans h.quit⟩
  exact hposted.trans (h.posted.trans (congrArg _ hfin.symm))

lemma Handling.watched (h : Handling env s)
    (hnot : (s.loop.m_finished && (others s).all id) = false) : Watched env s := by
  refine ⟨h.dedup, h.posted, h.quit.trans hnot.symm, ?_⟩
  intro hquit
  exact absurd (h.quit.symm.trans hquit) (by decide)

lemma loop_maybeFinished {a : ListDir.State} (hquit : a.quit = false) :
    let t := ListDir.maybeFinished a
    t.m_finished = a.m_finished ∧ t.posted = a.posted ∧
      t.quit = (a.m_finished && a.others.all id) ∧ (t.quit = true → t.list = []) := by
  obtain ⟨-, -, hfin, hposted, -, -, -, hlist, -⟩ := ListDir.flushEntries_frame a
  unfold ListDir.maybeFinished
  split_ifs with hall
  · refine ⟨hfin, hposted, ?_, fun _ => hlist⟩
    simp [hall.1, hall.2]
  · refine ⟨rfl, rfl, ?_, ?_⟩
    · rw [← Bool.and_eq_true, Bool.not_eq_true] at hall
      exact hquit.trans hall.symm
    · intro hend
      exact absurd (hquit.symm.trans hend) (by decide)

lemma Handling.maybeFinished (h : Handling env s) : Watched env (maybeFinished s) := by
  have hdedup : Deduplicated env { s.loop with others := others s } :=
    ⟨h.dedup.entries, h.dedup.names⟩
  obtain ⟨hfin, hposted, hend, hlist⟩ :=
    loop_maybeFinished (a := { s.loop with others := others s }) h.quit
  refine ⟨ListDir.maybeFinished_deduplicated hdedup, ?_, ?_, hlist⟩
  · exact hposted.trans (h.posted.trans (congrArg _ hfin.symm))
  · exact hend.trans (congrArg (· && (others s).all id) hfin.symm)

lemma Handling.dnssdMaybeFinish (h : Handling env s) : Watched env (dnssdMaybeFinish s) := by
  unfold Discoverers.dnssdMaybeFinish
  split_ifs with hfin
  · exact h.maybeFinished
  · refine h.watched ?_
    simp [others, hfin]

lemma Handling.wsdMaybeFinish (h : Handling env s) : Watched env (wsdMaybeFinish s) := by
  unfold Discoverers.wsdMaybeFinish
  split_ifs with hfin
  · exact h.maybeFinished
  · refine h.watched ?_
    simp [others, hfin]

lemma loop_discoverNext (env : Env) {a : ListDir.State} (hfin : a.m_finished = false) (hquit : a.quit = false) :
    let t := ListDir.discoverNext env a
    t.quit = (t.m_finished && a.others.all id) ∧ (t.quit = true → t.list = []) := by
  have hstop : ∀ m_error : ℤ, let t := ListDir.stop { a with m_error := m_error }
      t.quit = (t.m_finished && a.others.all id) ∧ (t.quit = true → t.list = []) := by
    intro m_error
    obtain ⟨hend, -, hall, hlist⟩ :=
      loop_maybeFinished (a := { a with m_error := m_error, m_finished := true }) hquit
    exact ⟨hall.trans (congrArg (· && a.others.all id) hend.symm), hlist⟩
  have hgoes : ∀ t : ListDir.State, t.m_finished = false → t.quit = false →
      t.quit = (t.m_finished && a.others.all id) ∧ (t.quit = true → t.list = []) := by
    intro t htfin htquit
    refine ⟨by rw [htfin, htquit, Bool.false_and], fun hend => ?_⟩
    exact absurd (htquit.symm.trans hend) (by decide)
  rcases ListDir.discoverNext_cases env a with
    ⟨-, hnext⟩ | ⟨-, -, hnext⟩ | ⟨content, wasRoot, ds, -, hnext, -, -⟩
  · rw [hnext]
    unfold ListDir.init
    split
    · exact hgoes _ hfin hquit
    · exact hstop _
  · rw [hnext]
    exact hstop a.m_error
  · rw [hnext]
    obtain ⟨-, -, hfin', -, -, hquit', -, -⟩ := ListDir.foldl_appendDiscovery_frame env
      { a with toRead := content, m_dirWasRoot := wasRoot } ds
    exact hgoes _ (hfin'.trans hfin) (hquit'.trans hquit)

lemma Watched.loopEvent (h : Watched env s) (hquit : s.loop.quit = false)
    (hposted : s.loop.posted = true) :
    Watched env { s with loop := ListDir.customEvent env { s.loop with others := others s } } := by
  have hfin : s.loop.m_finished = false := by
    have heq := h.posted.symm.trans hposted
    simpa using heq
  have hdedup : Deduplicated env { s.loop with others := others s } :=
    ⟨h.dedup.entries, h.dedup.names⟩
  have hevent : ListDir.customEvent env { s.loop with others := others s } =
      { ListDir.discoverNext env { s.loop with others := others s, posted := false } with
        posted := !(ListDir.discoverNext env
          { s.loop with others := others s, posted := false }).m_finished } := by
    simp only [ListDir.customEvent, hfin, Bool.false_eq_true, if_false]
  obtain ⟨hend, hlist⟩ := loop_discoverNext env
    (a := { s.loop with others := others s, posted := false }) hfin hquit
  refine ⟨ListDir.customEvent_deduplicated hdedup, ?_, ?_, ?_⟩
  · rw [hevent]
  · rw [hevent]
    exact hend
  · rw [hevent]
    exact hlist

/-! ### Any event -/

structure Inv (env : Env) (s : State) : Prop where
  watched : Watched env s
  counted : Counted s.dnssd
  kept : Kept s.wsd

lemma Watched.flushEntries (h : Watched env s) :
    Watched env { s with loop := ListDir.flushEntries s.loop } := by
  obtain ⟨-, -, hfin, hposted, -, hsame, -, hlist, -⟩ := ListDir.flushEntries_frame s.loop
  refine ⟨ListDir.flushEntries_deduplicated h.dedup, ?_, ?_, fun _ => hlist⟩
  · exact hposted.trans (h.posted.trans (congrArg _ hfin.symm))
  · exact hsame.trans (h.quit.trans (congrArg (· && (others s).all id) hfin.symm))

@[simp] lemma dnssdMaybeFinish_dnssd (s : State) : (dnssdMaybeFinish s).dnssd = s.dnssd := by
  unfold dnssdMaybeFinish
  split_ifs <;> rfl

@[simp] lemma dnssdMaybeFinish_wsd (s : State) : (dnssdMaybeFinish s).wsd = s.wsd := by
  unfold dnssdMaybeFinish
  split_ifs <;> rfl

@[simp] lemma wsdMaybeFinish_dnssd (s : State) : (wsdMaybeFinish s).dnssd = s.dnssd := by
  unfold wsdMaybeFinish
  split_ifs <;> rfl

@[simp] lemma wsdMaybeFinish_wsd (s : State) : (wsdMaybeFinish s).wsd = s.wsd := by
  unfold wsdMaybeFinish
  split_ifs <;> rfl

lemma dnssdMaybeFinish_browsing (h : s.dnssd.m_disconnected = false) : dnssdMaybeFinish s = s := by
  have hnot : s.dnssd.isFinished = false := by simp [DNSSDDiscoverer.isFinished, h]
  simp [dnssdMaybeFinish, hnot]

lemma Inv.serviceAdded (h : Inv env s) (hquit : s.loop.quit = false)
    (hbrowsing : s.dnssd.m_disconnected = false) (service : RemoteService)
    (reported : Option (String × ℤ)) : Inv env (serviceAdded env texts s service reported) := by
  have hnot : ∀ t : State, t.dnssd.m_disconnected = false →
      (t.loop.m_finished && (others t).all id) = false := by
    intro t ht
    simp [others, DNSSDDiscoverer.isFinished, ht]
  unfold Discoverers.serviceAdded
  split_ifs with hknown
  · exact h
  · cases reported with
    | none =>
      exact ⟨Handling.watched ⟨h.watched.dedup, h.watched.posted, hquit⟩ (hnot _ hbrowsing),
        h.counted.append service, h.kept⟩
    | some answer =>
      -- the report comes while the browser still browses, so nothing is finished by it
      obtain ⟨hostName, port⟩ := answer
      have hreport := Handling.newDiscovery
        (s := { s with dnssd := { s.dnssd with
          m_resolvedCount := s.dnssd.m_resolvedCount + 1
          resolved := s.dnssd.resolved ++ [s.dnssd.m_services.length] } })
        ⟨h.watched.dedup, h.watched.posted, hquit⟩ (DNSSDDiscovery texts service hostName port)
      have hplace : s.dnssd.m_services.length ∉ s.dnssd.resolved :=
        fun hmem => absurd (h.counted.bound _ hmem) (Nat.lt_irrefl _)
      have hcounted := (h.counted.append service).resolved (i := s.dnssd.m_services.length)
        (by simp) hplace
      have hsame : dnssdResolved env texts s s.dnssd.m_services.length service hostName port =
          newDiscovery env { s with dnssd := { s.dnssd with
            m_resolvedCount := s.dnssd.m_resolvedCount + 1
            resolved := s.dnssd.resolved ++ [s.dnssd.m_services.length] } }
            (DNSSDDiscovery texts service hostName port) := dnssdMaybeFinish_browsing hbrowsing
      dsimp only
      rw [hsame]
      exact ⟨Handling.watched ⟨hreport.dedup, hreport.posted, hreport.quit⟩ (hnot _ hbrowsing),
        hcounted, h.kept⟩

/-- **One event.** A report of DNS-SD that is not the first would be counted as another service. -/
lemma Inv.step {t : State} {l : Label} (h : Inv env s) (honce : ReportsOnce s l)
    (hstep : step env texts s l = some t) : Inv env t := by
  unfold Discoverers.step at hstep
  rw [Option.ite_none_right_eq_some] at hstep
  obtain ⟨hquit, hstep⟩ := hstep
  cases l with
  | loopEvent =>
    obtain ⟨hposted, heq⟩ := Option.ite_none_right_eq_some.mp hstep
    obtain rfl := Option.some.inj heq
    exact ⟨h.watched.loopEvent hquit hposted, h.counted, h.kept⟩
  | sendTimer =>
    obtain rfl := Option.some.inj hstep
    exact ⟨h.watched.flushEntries, h.counted, h.kept⟩
  | serviceAdded service reported =>
    obtain ⟨hbrowsing, heq⟩ := Option.ite_none_right_eq_some.mp hstep
    obtain rfl := Option.some.inj heq
    exact h.serviceAdded hquit hbrowsing service reported
  | browsingFinished =>
    obtain ⟨-, heq⟩ := Option.ite_none_right_eq_some.mp hstep
    obtain rfl := Option.some.inj heq
    refine ⟨Handling.dnssdMaybeFinish ⟨h.watched.dedup, h.watched.posted, hquit⟩, ?_, ?_⟩
    · unfold dnssdStop
      rw [dnssdMaybeFinish_dnssd]
      exact h.counted.stop
    · unfold dnssdStop
      rw [dnssdMaybeFinish_wsd]
      exact h.kept
  | resolved i hostName port =>
    obtain ⟨service, hi, rfl⟩ := Option.map_eq_some_iff.mp hstep
    have hlt : i < s.dnssd.m_services.length := (List.getElem?_eq_some_iff.mp hi).1
    have hreport := Handling.newDiscovery
      (s := { s with dnssd := { s.dnssd with
        m_resolvedCount := s.dnssd.m_resolvedCount + 1
        resolved := s.dnssd.resolved ++ [i] } })
      ⟨h.watched.dedup, h.watched.posted, hquit⟩ (DNSSDDiscovery texts service hostName port)
    refine ⟨hreport.dnssdMaybeFinish, ?_, ?_⟩
    · unfold dnssdResolved
      rw [dnssdMaybeFinish_dnssd]
      exact h.counted.resolved hlt honce
    · unfold dnssdResolved
      rw [dnssdMaybeFinish_wsd]
      exact h.kept
  | probeMatch fromName service =>
    obtain rfl := Option.some.inj hstep
    have hothers := matchReceived_isFinished s.wsd fromName service
    refine ⟨⟨h.watched.dedup, h.watched.posted, ?_, h.watched.flushed⟩, h.counted,
      h.kept.matchReceived fromName service⟩
    simp only [others, hothers]
    exact h.watched.quit
  | probeTimeout =>
    obtain ⟨-, heq⟩ := Option.ite_none_right_eq_some.mp hstep
    obtain rfl := Option.some.inj heq
    refine ⟨Handling.wsdMaybeFinish ⟨h.watched.dedup, h.watched.posted, hquit⟩, ?_, ?_⟩
    · rw [wsdMaybeFinish_dnssd]
      exact h.counted
    · rw [wsdMaybeFinish_wsd]
      exact h.kept.stopProbing
  | resolveMatch fromName i service =>
    obtain ⟨-, heq⟩ := Option.ite_none_right_eq_some.mp hstep
    obtain rfl := Option.some.inj heq
    refine ⟨Handling.wsdMaybeFinish ⟨h.watched.dedup, h.watched.posted, hquit⟩, ?_, ?_⟩
    · rw [wsdMaybeFinish_dnssd]
      exact h.counted
    · rw [wsdMaybeFinish_wsd]
      exact h.kept.resolveMatchReceived fromName i service
  | resolveTimeout i =>
    obtain ⟨-, heq⟩ := Option.ite_none_right_eq_some.mp hstep
    obtain rfl := Option.some.inj heq
    refine ⟨Handling.wsdMaybeFinish ⟨h.watched.dedup, h.watched.posted, hquit⟩, ?_, ?_⟩
    · rw [wsdMaybeFinish_dnssd]
      exact h.counted
    · rw [wsdMaybeFinish_wsd]
      exact h.kept.stopResolver i
  | deferredDelete i =>
    obtain ⟨hdelete, heq⟩ := Option.ite_none_right_eq_some.mp hstep
    obtain rfl := Option.some.inj heq
    have hothers := delete_isFinished hdelete
    refine ⟨⟨h.watched.dedup, h.watched.posted, ?_, h.watched.flushed⟩, h.counted,
      h.kept.delete i⟩
    simp only [others, hothers]
    exact h.watched.quit
  | pbsdRun i computer =>
    simp only [handle] at hstep
    split at hstep
    · rename_i resolver hi
      obtain ⟨hqueued, heq⟩ := Option.ite_none_right_eq_some.mp hstep
      obtain rfl := Option.some.inj heq
      have hanswer := Handling.newDiscovery (s := { s with wsd := s.wsd.pbsdResolved i resolver })
        ⟨h.watched.dedup, h.watched.posted, hquit⟩
        (pbsdDiscovery texts resolver.m_endpointUrl computer)
      refine ⟨hanswer.wsdMaybeFinish, ?_, ?_⟩
      · unfold pbsdRun
        rw [wsdMaybeFinish_dnssd]
        exact h.counted
      · unfold pbsdRun
        rw [wsdMaybeFinish_wsd]
        exact h.kept.pbsdResolved hi hqueued
    · cases hstep

lemma inv_initial : Inv env initial where
  watched := ⟨⟨rfl, rfl⟩, rfl, rfl, nofun⟩
  counted := ⟨List.nodup_nil, nofun, rfl⟩
  kept := ⟨rfl, nofun, rfl⟩

lemma Inv.due (h : Inv env s) (hquit : s.loop.quit = false) : ∃ l, Due s l := by
  by_contra hnone
  have hover : ∀ l, ¬ Due s l := not_exists.mp hnone
  have hlisted : s.loop.m_finished = true := by
    have hposted : s.loop.posted = false := Bool.not_eq_true _ ▸ hover .loopEvent
    have heq := h.watched.posted.symm.trans hposted
    simpa using heq
  have hdnssd : s.dnssd.isFinished = true := by
    rw [h.counted.isFinished_iff]
    refine ⟨Bool.not_eq_false _ ▸ hover .browsingFinished, fun i hi => ?_⟩
    by_contra hunreported
    exact hover (.resolved i "" 0) ⟨hi, hunreported⟩
  have hwsd : s.wsd.isFinished = true := by
    rw [h.kept.isFinished_iff]
    refine ⟨Bool.not_eq_true _ ▸ hover .probeTimeout, ?_, fun resolver hmem => ?_⟩
    · rw [WSDiscoverer.m_endpointResolvers, List.filter_eq_nil_iff]
      intro resolver hmem htable
      obtain ⟨i, hi⟩ := List.mem_iff_getElem?.mp hmem
      have htimer := h.kept.running resolver hmem (by simpa using htable)
      refine hover (.resolveTimeout i) ?_
      show (s.wsd.alive[i]?).any WSDResolver.m_stopTimer = true
      rw [hi]
      exact htimer
    · obtain ⟨i, hi⟩ := List.mem_iff_getElem?.mp hmem
      rw [← Bool.not_eq_true]
      intro hqueued
      refine hover (.pbsdRun i "") ?_
      show (s.wsd.m_resolvers[i]?).any PBSDResolver.queued = true
      rw [hi]
      exact hqueued
  have hend := h.watched.quit
  simp [others, hlisted, hdnssd, hwsd, hquit] at hend

lemma Inv.settled (h : Inv env s) : Settled env s where
  notEarly hquit := by
    have hend := h.watched.quit.symm.trans hquit
    simp only [others, List.all_cons, List.all_nil, id_eq, Bool.and_true, Bool.and_eq_true] at hend
    obtain ⟨hlisted, hdnssd, hwsd⟩ := hend
    obtain ⟨hbrowsed, hresolved⟩ := h.counted.isFinished_iff.mp hdnssd
    obtain ⟨hprobed, hlocated, hanswered⟩ := h.kept.isFinished_iff.mp hwsd
    exact ⟨hlisted, hbrowsed, hresolved, hprobed, hlocated, hanswered⟩
  once := h.watched.dedup.entries
  passedOn hquit := by
    have hentries := h.watched.dedup.entries
    rw [h.watched.flushed hquit, List.append_nil] at hentries
    exact hentries
  goesOn := h.due

/-- **The loop ends when all three discoverers are finished.** In a run in which every resolution
of DNS-SD reports only once, whatever the order of the events, the loop does not end before, what
was discovered has been passed on by then, and something is bound to come until then. -/
theorem root_listed (env : Env) (texts : Texts) {ls : List Label} {s : State}
    (honce : AllSteps (step env texts) ReportsOnce initial ls)
    (hrun : run (step env texts) initial ls = some s) : Settled env s :=
  (run_inv (fun _ _ _ => Inv.step) honce inv_initial hrun).settled

/-! ### A network -/

def plainTexts : Texts where
  url host _ := "smb://" ++ host ++ "/"
  unknownDevice host := "Unknown Device @ " ++ host

def nas : RemoteService := ⟨"NAS", "_smb._tcp", "local"⟩

def printer : RemoteService := ⟨"Printer", "_smb._tcp", "local"⟩

/-- libsmbclient finds nothing, and one server is found twice, by DNS-SD and by its metadata. -/
def foundRun : List Label :=
  [.serviceAdded nas none, .probeMatch (fun _ => true) ⟨"urn:nas", []⟩, .resolved 0 "nas.local" 445,
    .resolveMatch (fun _ => true) 0 ⟨"urn:nas", ["10.0.0.2"]⟩, .loopEvent, .probeTimeout,
    .browsingFinished, .loopEvent, .deferredDelete 0, .pbsdRun 0 "nas"]

/-- The server is passed on once, although WS-Discovery spells it in another case. -/
theorem root_listed_nas : ∃ s, run (step (ListDir.files []) plainTexts) initial foundRun = some s ∧
    Settled (ListDir.files []) s ∧ s.loop.quit = true ∧
    s.loop.listEntries = [[serverEntry "NAS" "smb://nas.local/"]] :=
  have honce : AllSteps (step (ListDir.files []) plainTexts) ReportsOnce initial foundRun := by decide
  ⟨_, rfl, root_listed (ListDir.files []) plainTexts honce rfl, rfl, rfl⟩

/-- A service reports once more, as a resolver does for each address of a host, and then all comes
to its end. -/
def hungRun : List Label :=
  [.serviceAdded nas none, .resolved 0 "nas.local" 445, .resolved 0 "nas.local" 445,
    .browsingFinished, .loopEvent, .loopEvent, .probeTimeout]

/-- The second report of one service stands for the first of another. -/
def earlyRun : List Label :=
  [.serviceAdded nas none, .serviceAdded printer none, .resolved 0 "nas.local" 445,
    .resolved 0 "nas.local" 445, .browsingFinished, .loopEvent, .loopEvent, .probeTimeout]

/-- **A second report is counted as another service**: the loop waits for nothing, or it does not
wait for a service. -/
theorem second_report :
    (∃ s, run (step (ListDir.files []) plainTexts) initial hungRun = some s ∧ s.loop.quit = false ∧
      ∀ l, ¬ Due s l) ∧
    ∃ s, run (step (ListDir.files []) plainTexts) initial earlyRun = some s ∧ s.loop.quit = true ∧
      ¬ Done s := by
  constructor
  · refine ⟨_, rfl, rfl, ?_⟩
    intro l h
    cases l with
    | resolved i hostName port =>
      obtain ⟨hlt, hnot⟩ : i < 1 ∧ i ∉ [0, 0] := h
      obtain rfl : i = 0 := by omega
      exact hnot (by decide)
    | _ => exact absurd h (by first | exact id | exact nofun)
  · refine ⟨_, rfl, rfl, ?_⟩
    intro h
    exact absurd (h.resolved 1 (by decide)) (by decide)

end KioExtras.Smb.Discoverers
