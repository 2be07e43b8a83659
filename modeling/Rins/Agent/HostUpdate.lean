import Rins.Agent.LoadBalance

/-!
# HostUpdate — what an answer of the DNS service does to a `load_balance`

`update` is meant to make the hosts of the object those of the answer.  Its first loop enters a host
only if the host is there already, and its last loop deletes the records of the hosts that are gone
but leaves their keys in `_host_map`.  So the keys never change: no host is ever installed, and none
is ever removed.
-/

namespace Rins
namespace Agent

open Proto (GetRouteResponse)
open Reactor

namespace LoadBalance

/-- The key under which a record belongs into `_host_map`. -/
def keyOf (host : HostInfo) : UInt64 :=
  hostKey { ip := host.ip.toInt32, port := host.port }

/-- The record is in the list that its `overload` selects, once, and not in the other one. -/
structure ListedOnce (lb : LoadBalance) (ptr : HostPtr) (host : HostInfo) : Prop where
  idle : lb.idleList.count ptr = if host.overload then 0 else 1
  overload : lb.overloadList.count ptr = if host.overload then 1 else 0

/-- The three containers are in step. -/
structure Good (lb : LoadBalance) : Prop where
  entry : ∀ key ptr, lb.hostMap.lookup key = some ptr →
    ∃ host, lb.deref ptr = .ok host ∧ keyOf host = key ∧ lb.ListedOnce ptr host
  listed : ∀ ptr, ptr ∈ lb.idleList ∨ ptr ∈ lb.overloadList →
    ∃ key, lb.hostMap.lookup key = some ptr

/-- A host of the answer is in `lb'` as it should be after `update` has run on `lb`. -/
structure HostInstalled (lb lb' : LoadBalance) (h : Proto.HostInfo) (ptr : HostPtr)
    (host : HostInfo) : Prop where
  entry : lb'.hostMap.lookup (hostKey h) = some ptr
  record : lb'.deref ptr = .ok host
  listed : lb'.ListedOnce ptr host
  known : hostKey h ∈ lb.hostMap →
    lb.hostMap.lookup (hostKey h) = some ptr ∧ lb.deref ptr = .ok host
  unknown : hostKey h ∉ lb.hostMap →
    host = HostInfo.new h.ip.toUInt32 h.port 0 ∧ ptr ∈ lb'.idleList

/-- The records of `lb` whose hosts the answer lists. -/
def Kept (lb : LoadBalance) (resp : GetRouteResponse) (ptr : HostPtr) : Prop :=
  ∃ h ∈ resp.host, lb.hostMap.lookup (hostKey h) = some ptr

instance (lb : LoadBalance) (resp : GetRouteResponse) : DecidablePred (lb.Kept resp) :=
  fun _ => List.decidableBEx _ _

/-- The answer `resp`, given to `lb`, is installed in `lb'`. -/
structure Installed (lb : LoadBalance) (resp : GetRouteResponse) (lb' : LoadBalance) : Prop where
  hosts : ∀ h ∈ resp.host, ∃ ptr host, HostInstalled lb lb' h ptr host
  idleOrder : lb'.idleList.filter (lb.Kept resp) = lb.idleList.filter (lb.Kept resp)
  overloadOrder : lb'.overloadList.filter (lb.Kept resp) = lb.overloadList.filter (lb.Kept resp)

/-! ## Pointers -/

theorem deref_eq_ok {lb : LoadBalance} {ptr : HostPtr} {host : HostInfo} :
    lb.deref ptr = .ok host ↔ lb.hosts[ptr]? = some (some host) := by
  unfold deref
  split
  · next found hfound =>
      simp [hfound]
  · next hnone =>
      constructor
      · intro h
        cases h
      · intro h
        exact absurd h (hnone host)

theorem lt_of_deref {lb : LoadBalance} {ptr : HostPtr} {host : HostInfo}
    (h : lb.deref ptr = .ok host) : ptr < lb.hosts.length :=
  (List.getElem?_eq_some_iff.1 (deref_eq_ok.1 h)).1

/-- The object refers to the record. -/
def References (lb : LoadBalance) (ptr : HostPtr) : Prop :=
  (∃ key, lb.hostMap.lookup key = some ptr) ∨ ptr ∈ lb.idleList ∨ ptr ∈ lb.overloadList

/-- No pointer that the object holds is dangling. -/
def NoDangling (lb : LoadBalance) : Prop :=
  ∀ ptr, lb.References ptr → ∃ host, lb.deref ptr = .ok host

theorem Good.noDangling {lb : LoadBalance} (h : lb.Good) : lb.NoDangling := by
  intro ptr href
  have hkey : ∃ key, lb.hostMap.lookup key = some ptr := by
    rcases href with hmap | hlist
    · exact hmap
    · exact h.listed ptr hlist
  rcases hkey with ⟨key, hkey⟩
  rcases h.entry key ptr hkey with ⟨host, hhost, _, _⟩
  exact ⟨host, hhost⟩

/-- In a good state two keys have two records. -/
theorem Good.key_unique {lb : LoadBalance} (h : lb.Good) {key key' : UInt64} {ptr : HostPtr}
    (hkey : lb.hostMap.lookup key = some ptr) (hkey' : lb.hostMap.lookup key' = some ptr) :
    key = key' := by
  rcases h.entry key ptr hkey with ⟨host, hhost, hk, _⟩
  rcases h.entry key' ptr hkey' with ⟨host', hhost', hk', _⟩
  rw [hhost] at hhost'
  cases hhost'
  exact hk.symm.trans hk'

/-! ## The first loop -/

/-- What entering the hosts of an answer does. -/
structure Entered (lb : LoadBalance) (hosts : List Proto.HostInfo) (lb' : LoadBalance) : Prop where
  mem : ∀ key, key ∈ lb'.hostMap ↔ key ∈ lb.hostMap
  unlisted : ∀ key, key ∉ hosts.map hostKey → lb'.hostMap.lookup key = lb.hostMap.lookup key
  replaced : ∀ key, key ∈ hosts.map hostKey → key ∈ lb.hostMap →
    ∃ ptr, lb'.hostMap.lookup key = some ptr ∧ lb.hosts.length ≤ ptr
  grows : lb.hosts.length ≤ lb'.hosts.length
  record : ∀ ptr host, lb.deref ptr = .ok host → lb'.deref ptr = .ok host
  noDangling : lb.NoDangling → lb'.NoDangling

/-- A known host gets a new record; an unknown one is passed over. -/
theorem addHost_entered (lb : LoadBalance) (h : Proto.HostInfo) :
    Entered lb [h] (lb.addHost h) := by
  by_cases hknown : (lb.hostMap.lookup (hostKey h)).isSome
  -- the test of the source is the wrong way round: this is the branch that allocates
  · have hmem : hostKey h ∈ lb.hostMap := AList.lookup_isSome.1 hknown
    have hrecord : ∀ ptr host, lb.deref ptr = .ok host → (lb.addHost h).deref ptr = .ok host := by
      intro ptr host hhost
      have hlt := lt_of_deref hhost
      rw [deref_eq_ok] at hhost ⊢
      simp only [addHost, hknown, if_true]
      rw [List.getElem?_append_left hlt, hhost]
    refine
      { mem := ?_, unlisted := ?_, replaced := ?_, grows := ?_, record := hrecord,
        noDangling := ?_ }
    · intro key
      simp only [addHost, hknown, if_true, AList.mem_insert]
      constructor
      · rintro (rfl | hkey)
        · exact hmem
        · exact hkey
      · exact Or.inr
    · intro key hkey
      have hne : key ≠ hostKey h := by simpa using hkey
      simp only [addHost, hknown, if_true]
      exact AList.lookup_insert_ne hne
    · intro key hkey _
      have heq : key = hostKey h := by simpa using hkey
      subst heq
      refine ⟨lb.hosts.length, ?_, le_rfl⟩
      simp only [addHost, hknown, if_true]
      exact AList.lookup_insert _
    · simp [addHost, hknown]
    · intro hlive ptr href
      -- the only pointer that was not there before is the one to the new record
      have hcase : ptr = lb.hosts.length ∨ lb.References ptr := by
        simp only [References, addHost, hknown, if_true, List.mem_append, List.mem_singleton]
          at href ⊢
        rcases href with ⟨key, hkey⟩ | (hidle | hnew) | hover
        · by_cases heq : key = hostKey h
          · subst heq
            rw [AList.lookup_insert] at hkey
            exact Or.inl (Option.some.inj hkey).symm
          · rw [AList.lookup_insert_ne heq] at hkey
            exact Or.inr (Or.inl ⟨key, hkey⟩)
        · exact Or.inr (Or.inr (Or.inl hidle))
        · exact Or.inl hnew
        · exact Or.inr (Or.inr (Or.inr hover))
      rcases hcase with rfl | hold
      · refine ⟨HostInfo.new h.ip.toUInt32 h.port 0, ?_⟩
        rw [deref_eq_ok]
        simp [addHost, hknown]
      · rcases hlive ptr hold with ⟨host, hhost⟩
        exact ⟨host, hrecord ptr host hhost⟩
  -- an unknown host: neither a record nor an entry
  · have hsame : lb.addHost h = lb := by simp [addHost, hknown]
    have hnotMem : hostKey h ∉ lb.hostMap := fun hmem => hknown (AList.lookup_isSome.2 hmem)
    rw [hsame]
    refine
      { mem := fun _ => Iff.rfl, unlisted := fun _ _ => rfl, replaced := ?_, grows := le_rfl,
        record := fun _ _ hhost => hhost, noDangling := id }
    intro key hkey hmem
    have heq : key = hostKey h := by simpa using hkey
    exact absurd (heq ▸ hmem) hnotMem

theorem Entered.trans {lb lb' lb'' : LoadBalance} {hosts hosts' : List Proto.HostInfo}
    (h : Entered lb hosts lb') (h' : Entered lb' hosts' lb'') :
    Entered lb (hosts ++ hosts') lb'' where
  mem key := (h'.mem key).trans (h.mem key)
  unlisted := by
    intro key hkey
    simp only [List.map_append, List.mem_append, not_or] at hkey
    rw [h'.unlisted key hkey.2, h.unlisted key hkey.1]
  replaced := by
    intro key hkey hmem
    -- the last host of a key decides which record the entry has
    by_cases hlater : key ∈ hosts'.map hostKey
    · rcases h'.replaced key hlater ((h.mem key).2 hmem) with ⟨ptr, hptr, hle⟩
      exact ⟨ptr, hptr, h.grows.trans hle⟩
    · have hfirst : key ∈ hosts.map hostKey := by
        rw [List.map_append, List.mem_append] at hkey
        exact hkey.resolve_right hlater
      rw [h'.unlisted key hlater]
      exact h.replaced key hfirst hmem
  grows := h.grows.trans h'.grows
  record ptr host hhost := h'.record ptr host (h.record ptr host hhost)
  noDangling hlive := h'.noDangling (h.noDangling hlive)

theorem foldl_addHost_entered (lb : LoadBalance) (hosts : List Proto.HostInfo) :
    Entered lb hosts (hosts.foldl addHost lb) := by
  induction hosts generalizing lb with
  | nil =>
      exact
        { mem := fun _ => Iff.rfl, unlisted := fun _ _ => rfl, replaced := by simp, grows := le_rfl,
          record := fun _ _ hhost => hhost, noDangling := id }
  | cons h hosts ih =>
      exact (addHost_entered lb h).trans (ih (lb.addHost h))

/-! ## The last loop -/

/-- Deleting the record of one key: the keys stay. -/
theorem deleteHost_ok {lb : LoadBalance} {key : UInt64} {ptr : HostPtr} {host : HostInfo}
    (hkey : lb.hostMap.lookup key = some ptr) (hhost : lb.deref ptr = .ok host) :
    ∃ lb', lb.deleteHost key = .ok lb' ∧ lb'.hostMap = lb.hostMap ∧
      lb'.hosts = lb.hosts.set ptr none := by
  unfold deleteHost
  rw [hkey]
  simp only [hhost, ok_bind]
  refine ⟨_, rfl, ?_, ?_⟩
  · split <;> rfl
  · split <;> rfl

theorem deleteHost_hostMap {lb lb' : LoadBalance} {key : UInt64}
    (h : lb.deleteHost key = .ok lb') : lb'.hostMap = lb.hostMap := by
  unfold deleteHost at h
  split at h
  · cases h
  · next ptr hkey =>
      rcases bind_eq_ok.1 h with ⟨host, _, hout⟩
      cases hout
      split <;> rfl

theorem foldlM_deleteHost_hostMap {lb lb' : LoadBalance} {keys : List UInt64}
    (h : keys.foldlM deleteHost lb = .ok lb') : lb'.hostMap = lb.hostMap := by
  induction keys generalizing lb with
  | nil =>
      cases h
      rfl
  | cons key keys ih =>
      rw [List.foldlM_cons] at h
      rcases bind_eq_ok.1 h with ⟨next, hnext, hrest⟩
      rw [ih hrest, deleteHost_hostMap hnext]

/-- The loop returns if the keys have records of their own that are there. -/
theorem foldlM_deleteHost_ok {lb : LoadBalance} {keys : List UInt64} (hnodup : keys.Nodup)
    (hlive : ∀ key ∈ keys, ∃ ptr host,
      lb.hostMap.lookup key = some ptr ∧ lb.deref ptr = .ok host)
    (hown : ∀ key ∈ keys, ∀ key' ∈ keys, ∀ ptr, lb.hostMap.lookup key = some ptr →
      lb.hostMap.lookup key' = some ptr → key = key') :
    ∃ lb', keys.foldlM deleteHost lb = .ok lb' := by
  induction keys generalizing lb with
  | nil =>
      exact ⟨lb, rfl⟩
  | cons key keys ih =>
      rcases hlive key (by simp) with ⟨ptr, host, hkey, hhost⟩
      rcases deleteHost_ok hkey hhost with ⟨next, hnext, hmap, hhosts⟩
      rw [List.nodup_cons] at hnodup
      rw [List.foldlM_cons, hnext, ok_bind]
      refine ih hnodup.2 ?_ ?_
      · intro key' hkey'
        rcases hlive key' (by simp [hkey']) with ⟨ptr', host', hlookup', hhost'⟩
        -- another key has another record, which is still there
        have hne : ptr ≠ ptr' := by
          rintro rfl
          -- two keys with one record would have it deleted twice
          have hsame := hown key (by simp) key' (by simp [hkey']) ptr hkey hlookup'
          exact hnodup.1 (hsame ▸ hkey')
        refine ⟨ptr', host', by rw [hmap, hlookup'], ?_⟩
        rw [deref_eq_ok] at hhost' ⊢
        rw [hhosts, List.getElem?_set_ne hne, hhost']
      · intro key' hkey' key'' hkey'' ptr' h' h''
        rw [hmap] at h' h''
        exact hown key' (by simp [hkey']) key'' (by simp [hkey'']) ptr' h' h''

/-! ## `update` -/

/-- The keys whose records `update` deletes. -/
def needDelete (lb : LoadBalance) (resp : GetRouteResponse) : List UInt64 :=
  (lb.hostMap.keys.filter fun key => key ∉ resp.host.map hostKey).insertionSort (· ≤ ·)

theorem mem_needDelete {lb : LoadBalance} {resp : GetRouteResponse} {key : UInt64} :
    key ∈ lb.needDelete resp ↔ key ∈ lb.hostMap ∧ key ∉ resp.host.map hostKey := by
  simp [needDelete, AList.mem_keys]

theorem nodup_needDelete (lb : LoadBalance) (resp : GetRouteResponse) :
    (lb.needDelete resp).Nodup :=
  (List.perm_insertionSort _ _).nodup_iff.2 (lb.hostMap.keys_nodup.filter _)

theorem update_eq {lb : LoadBalance} {resp : GetRouteResponse} (hresp : resp.host ≠ []) :
    lb.update resp =
      ((resp.host.foldl addHost lb).needDelete resp).foldlM deleteHost
        (resp.host.foldl addHost lb) := by
  have hsome : assert (resp.host.length ≠ 0) = .ok () := by simp [assert, hresp]
  simp only [update, hsome, ok_bind]
  rfl

/-- The keys of `_host_map` never change. -/
theorem update_mem {lb lb' : LoadBalance} {resp : GetRouteResponse} (hresp : resp.host ≠ [])
    (h : lb.update resp = .ok lb') (key : UInt64) : key ∈ lb'.hostMap ↔ key ∈ lb.hostMap := by
  rw [update_eq hresp] at h
  rw [foldlM_deleteHost_hostMap h]
  exact (foldl_addHost_entered lb resp.host).mem key

/-- From a good state `update` returns. -/
theorem Good.update_ok {lb : LoadBalance} (h : lb.Good) {resp : GetRouteResponse}
    (hresp : resp.host ≠ []) : ∃ lb', lb.update resp = .ok lb' := by
  have hent := foldl_addHost_entered lb resp.host
  -- the entries that are to be deleted are those of the state before the first loop
  have hold : ∀ key ∈ (resp.host.foldl addHost lb).needDelete resp,
      (resp.host.foldl addHost lb).hostMap.lookup key = lb.hostMap.lookup key := by
    intro key hkey
    exact hent.unlisted key (mem_needDelete.1 hkey).2
  rw [update_eq hresp]
  refine foldlM_deleteHost_ok (nodup_needDelete _ _) ?_ ?_
  · intro key hkey
    have hmem : key ∈ lb.hostMap := (hent.mem key).1 (mem_needDelete.1 hkey).1
    rcases Option.isSome_iff_exists.1 (AList.lookup_isSome.2 hmem) with ⟨ptr, hptr⟩
    rcases h.entry key ptr hptr with ⟨host, hhost, _, _⟩
    exact ⟨ptr, host, by rw [hold key hkey, hptr], hent.record ptr host hhost⟩
  · intro key hkey key' hkey' ptr hptr hptr'
    rw [hold key hkey] at hptr
    rw [hold key' hkey'] at hptr'
    exact h.key_unique hptr hptr'

/-- An object that knows one idle and one overloaded host. -/
def twoHosts : LoadBalance :=
  { new 3 4 .pulling 0 with
    hostMap := (AList.singleton (hostKey ⟨1, 80⟩) 0).insert (hostKey ⟨2, 80⟩) 1
    idleList := [0]
    overloadList := [1]
    hosts := [some (HostInfo.new 1 80 0), some { HostInfo.new 2 80 0 with overload := true }] }

theorem twoHosts_good : twoHosts.Good where
  entry := by
    intro key ptr hkey
    by_cases hfirst : key = hostKey ⟨2, 80⟩
    · subst hfirst
      cases Option.some.inj ((AList.lookup_insert _).symm.trans hkey)
      exact ⟨_, rfl, by decide, by decide, by decide⟩
    · have hmem : key ∈ twoHosts.hostMap := by
        rw [← AList.lookup_isSome, hkey]
        rfl
      have hsecond : key = hostKey ⟨1, 80⟩ := by
        simpa [twoHosts, hfirst, AList.mem_keys] using hmem
      subst hsecond
      cases hkey
      exact ⟨_, rfl, by decide, by decide, by decide⟩
  listed := by
    intro ptr hptr
    simp only [twoHosts, List.mem_singleton] at hptr
    rcases hptr with rfl | rfl
    · exact ⟨hostKey ⟨1, 80⟩, by decide⟩
    · exact ⟨hostKey ⟨2, 80⟩, by decide⟩

/-- Whatever the good state and whatever the answer, its first host is not installed: a known host
has lost its record to a new one, and an unknown host has no entry. -/
theorem update_never_installs (lb : LoadBalance) (h : lb.Good) (resp : GetRouteResponse)
    (hresp : resp.host ≠ []) :
    ∃ lb', lb.update resp = .ok lb' ∧ ¬ Installed lb resp lb' := by
  rcases h.update_ok hresp with ⟨lb', hlb'⟩
  refine ⟨lb', hlb', ?_⟩
  intro hinst
  rcases List.exists_mem_of_ne_nil _ hresp with ⟨host, hmem⟩
  rcases hinst.hosts host hmem with ⟨ptr, record, hhost⟩
  by_cases hknown : hostKey host ∈ lb.hostMap
  · rcases hhost.known hknown with ⟨_, hrecord⟩
    -- the pointer in the map is one that the first loop has made
    have hent := foldl_addHost_entered lb resp.host
    rcases hent.replaced _ (List.mem_map_of_mem hmem) hknown with ⟨ptr', hptr', hle⟩
    have hlookup := hhost.entry
    rw [update_eq hresp] at hlb'
    rw [foldlM_deleteHost_hostMap hlb', hptr'] at hlookup
    have hlt := lt_of_deref hrecord
    cases Option.some.inj hlookup
    exact absurd hlt (not_lt.2 hle)
  -- the entry that should be there would be a key that `update` has added
  · have hentry : hostKey host ∈ lb'.hostMap := by
      apply AList.lookup_isSome.1
      rw [hhost.entry]
      rfl
    exact hknown ((update_mem hresp hlb' _).1 hentry)

theorem update_never_installs_twoHosts :
    ∃ lb', twoHosts.update ⟨3, 4, [⟨1, 80⟩, ⟨5, 80⟩]⟩ = .ok lb' ∧
      ¬ Installed twoHosts ⟨3, 4, [⟨1, 80⟩, ⟨5, 80⟩]⟩ lb' :=
  update_never_installs twoHosts twoHosts_good _ (by decide)

/-- The first answer that the object gets does not enter its host. -/
theorem update_not_installed :
    ¬ ∀ (lb : LoadBalance) (resp : GetRouteResponse), lb.Good → resp.host ≠ [] →
      ∃ lb', lb.update resp = .ok lb' ∧ Installed lb resp lb' := by
  intro hall
  have hgood : (new 3 4 .pulling 0).Good :=
    { entry := by simp [new], listed := by simp [new] }
  rcases hall (new 3 4 .pulling 0) ⟨3, 4, [⟨1, 80⟩]⟩ hgood (by decide) with ⟨lb', hlb', hinst⟩
  have hsame : lb' = new 3 4 .pulling 0 := by
    cases hlb'
    rfl
  rcases hinst.hosts ⟨1, 80⟩ (by simp) with ⟨ptr, host, hhost⟩
  have hentry := hhost.entry
  rw [hsame] at hentry
  cases hentry

/-! ## Sequences of answers -/

/-- What should hold after an answer: only its hosts are left, and no pointer dangles. -/
def OnlyHostsOf (lb : LoadBalance) (resp : GetRouteResponse) : Prop :=
  (∀ key ∈ lb.hostMap, key ∈ resp.host.map hostKey) ∧ lb.NoDangling

/-- Every answer of the sequence is taken in without a fault and leaves only its own hosts.  A
record that is deleted twice, or read after it was deleted, is a fault. -/
def RemovesCompletely : LoadBalance → List GetRouteResponse → Prop
  | _, [] => True
  | lb, resp :: resps =>
      ∃ lb', lb.update resp = .ok lb' ∧ lb'.OnlyHostsOf resp ∧ RemovesCompletely lb' resps

/-- If the answer lists every known host, `update` only enters. -/
theorem update_eq_of_listed {lb : LoadBalance} {resp : GetRouteResponse} (hresp : resp.host ≠ [])
    (hlisted : ∀ key ∈ lb.hostMap, key ∈ resp.host.map hostKey) :
    lb.update resp = .ok (resp.host.foldl addHost lb) := by
  have hnone : (resp.host.foldl addHost lb).needDelete resp = [] := by
    rw [List.eq_nil_iff_forall_not_mem]
    intro key hkey
    rcases mem_needDelete.1 hkey with ⟨hmem, hnot⟩
    exact hnot (hlisted key (((foldl_addHost_entered lb resp.host).mem key).1 hmem))
  rw [update_eq hresp, hnone]
  rfl

/-- A host is removed completely only when there is none to remove. -/
theorem removesCompletely_iff_of_noDangling {lb : LoadBalance} (hlive : lb.NoDangling)
    {resps : List GetRouteResponse} (hresps : ∀ resp ∈ resps, resp.host ≠ []) :
    lb.RemovesCompletely resps ↔
      ∀ resp ∈ resps, ∀ key ∈ lb.hostMap, key ∈ resp.host.map hostKey := by
  induction resps generalizing lb with
  | nil =>
      simp [RemovesCompletely]
  | cons resp resps ih =>
      have hresp := hresps resp (by simp)
      have hrest : ∀ later ∈ resps, later.host ≠ [] :=
        fun later hlater => hresps later (by simp [hlater])
      have hent := foldl_addHost_entered lb resp.host
      constructor
      · rintro ⟨lb', hlb', ⟨honly, hlive'⟩, hlater⟩
        -- the keys are the same before every answer, so each answer is held against those of `lb`
        have hmem := update_mem hresp hlb'
        intro other hother key hkey
        rcases List.mem_cons.1 hother with rfl | hother
        · exact honly key ((hmem key).2 hkey)
        · exact (ih hlive' hrest).1 hlater other hother key ((hmem key).2 hkey)
      · intro hlisted
        refine ⟨_, update_eq_of_listed hresp (hlisted resp (by simp)),
          ⟨?_, hent.noDangling hlive⟩, ?_⟩
        · intro key hkey
          exact hlisted resp (by simp) key ((hent.mem key).1 hkey)
        · refine (ih (hent.noDangling hlive) hrest).2 ?_
          intro later hlater key hkey
          exact hlisted later (by simp [hlater]) key ((hent.mem key).1 hkey)

/-- From a good state, the answers remove their hosts completely and once if and only if each of
them lists every host that the object knew at the beginning. -/
theorem removesCompletely_iff (lb : LoadBalance) (h : lb.Good) (resps : List GetRouteResponse)
    (hresps : ∀ resp ∈ resps, resp.host ≠ []) :
    lb.RemovesCompletely resps ↔
      ∀ resp ∈ resps, ∀ key ∈ lb.hostMap, key ∈ resp.host.map hostKey :=
  removesCompletely_iff_of_noDangling h.noDangling hresps

theorem removesCompletely_iff_twoHosts :
    twoHosts.RemovesCompletely [⟨3, 4, [⟨1, 80⟩, ⟨2, 80⟩]⟩, ⟨3, 4, [⟨2, 80⟩]⟩] ↔
      ∀ resp ∈ ([⟨3, 4, [⟨1, 80⟩, ⟨2, 80⟩]⟩, ⟨3, 4, [⟨2, 80⟩]⟩] : List GetRouteResponse),
        ∀ key ∈ twoHosts.hostMap, key ∈ resp.host.map hostKey :=
  removesCompletely_iff twoHosts twoHosts_good _ (by decide)

/-- The key of a host that the answer does not list stays. -/
theorem update_not_removed :
    ¬ ∀ (lb : LoadBalance) (resps : List GetRouteResponse), lb.Good →
      (∀ resp ∈ resps, resp.host ≠ []) → lb.RemovesCompletely resps := by
  intro hall
  rcases hall twoHosts [⟨3, 4, [⟨1, 80⟩]⟩] twoHosts_good (by decide) with ⟨lb', hlb', honly, _⟩
  have hkey : hostKey ⟨2, 80⟩ ∈ lb'.hostMap :=
    (update_mem (by decide) hlb' _).2 (by decide)
  have hlisted := honly.1 _ hkey
  exact absurd hlisted (by decide)

/-- The next answer deletes its record again. -/
example :
    (do let lb ← twoHosts.update ⟨3, 4, [⟨1, 80⟩]⟩
        let lb ← lb.update ⟨3, 4, [⟨1, 80⟩]⟩
        return lb.idleList) = .error .deleted := by
  decide

end LoadBalance
end Agent
end Rins
