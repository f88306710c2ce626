import Apchi.EventListeners.Section
import Apchi.Pipeline.Delivered

/-!
# Whether delivering would change anything

What a Section's Secrets hold is compared with what is rendered; what the pod template mounts, and
whether a Secret is there at all, is not.  So the answer is right exactly where a Secret holds
something else, or where every Secret is there and every file is where a delivery would put it.
-/

namespace Apchi.Pipeline

open Lib Keyed

/-! ### Where a delivery leaves the template as it is -/

section template

variable {template : PodTemplate} {container volume secret path key : String}
  {paths : List String} {contents : Dict}

theorem mounted_eq_self (hvolume : template.volumeNamed volume =
      some (template.secretVolume volume secret))
    (hmount : template.mountAt container path = some (fileMount volume path key)) :
    template.mounted container volume secret path key = template := by
  have hvolumes : upsert Volume.name (template.secretVolume volume secret) template.volumes =
      template.volumes := upsert_eq_self_iff.mpr hvolume
  have hcontainers : modifyFirst (isNamed container)
      (Container.patch (upsert VolumeMount.mountPath (fileMount volume path key)))
      template.containers = template.containers := by
    refine modifyFirst_eq_self_iff.mpr fun c hc => Container.patch_eq_self.mpr ?_
    unfold PodTemplate.mountAt PodTemplate.mountsIn at hmount
    rw [hc] at hmount
    exact upsert_eq_self_iff.mpr hmount
  unfold PodTemplate.mounted
  rw [hvolumes, hcontainers]

theorem mountedAll_eq_self (hvolume : template.volumeNamed volume =
      some (template.secretVolume volume secret))
    (hmounts : ∀ path ∈ paths, template.mountAt container path =
      some (fileMount volume path (fileKey path))) :
    template.mountedAll container volume secret fileKey paths = template := by
  induction paths with
  | nil => rfl
  | cons path rest ih =>
    obtain ⟨hpath, hrest⟩ := List.forall_mem_cons.mp hmounts
    show PodTemplate.mountedAll (template.mounted container volume secret path (fileKey path))
      container volume secret fileKey rest = _
    rw [mounted_eq_self hvolume hpath]
    exact ih hrest

theorem unmounted_eq_self (h : ∀ path ∈ paths, template.mountAt container path = none) :
    template.unmounted container paths = template :=
  unmounted_eq_self_iff.mpr fun m hm hpath =>
    List.find?_eq_none.mp (h _ hpath) m hm (decide_eq_true rfl)

theorem volumeNamed_dropped : (template.dropped volume).volumeNamed volume = none :=
  List.find?_eq_none.mpr fun v hv => by
    have := (List.mem_filter.mp hv).2
    simpa using this

theorem dropped_eq_self (h : template.volumeNamed volume = none) :
    template.dropped volume = template := by
  have hvolumes : (template.volumes.filter fun v => v.name ≠ volume) = template.volumes :=
    List.filter_eq_self.mpr fun v hv => by
      have := List.find?_eq_none.mp h v hv
      simpa using this
  unfold PodTemplate.dropped
  rw [hvolumes]

/-- Patches that go through leave the template as it is exactly where each file with content is
mounted, no other is, and the volume is there if any file is. -/
theorem withFiles_eq_self_iff (hhas : template.has container = true) :
    template.withFiles container volume secret contents paths = template ↔
      (∀ path ∈ paths, hasText contents path = true →
        template.mountAt container path = some (fileMount volume path (fileKey path))) ∧
      (∀ path ∈ paths, hasText contents path = false → template.mountAt container path = none) ∧
      template.volumeNamed volume = if paths.filter (hasText contents) = [] then none
        else some (template.secretVolume volume secret) := by
  constructor
  · intro h
    have hmount (path : String) : template.mountAt container path =
        (template.withFiles container volume secret contents paths).mountAt container path := by
      rw [h]
    have hvolume : template.volumeNamed volume =
        (template.withFiles container volume secret contents paths).volumeNamed volume := by rw [h]
    unfold PodTemplate.withFiles at hmount hvolume
    by_cases hpresent : paths.filter (hasText contents) = []
    · simp only [if_pos hpresent] at hmount hvolume ⊢
      refine ⟨fun path hpath htext => ?_, fun path hpath _ => ?_, hvolume.trans volumeNamed_dropped⟩
      · exact absurd htext (List.filter_eq_nil_iff.mp hpresent path hpath)
      · rw [hmount]
        exact (mountAt_unmounted hhas path).trans (if_pos hpath)
    · simp only [if_neg hpresent] at hmount hvolume ⊢
      refine ⟨fun path hpath htext => ?_, fun path hpath htext => ?_,
        hvolume.trans (volumeNamed_mountedAll hpresent)⟩
      · rw [hmount, mountAt_unmounted (has_mountedAll.trans hhas), mountAt_mountedAll hhas,
          if_neg (by simp [htext]), if_pos (List.mem_filter.mpr ⟨hpath, htext⟩)]
      · rw [hmount, mountAt_unmounted (has_mountedAll.trans hhas),
          if_pos (List.mem_filter.mpr ⟨hpath, by simp [htext]⟩)]
  · rintro ⟨hpresent, habsent, hvolume⟩
    unfold PodTemplate.withFiles
    split at hvolume
    · next hnone =>
      rw [if_pos hnone, unmounted_eq_self fun path hpath => habsent path hpath
        (by simpa using List.filter_eq_nil_iff.mp hnone path hpath), dropped_eq_self hvolume]
    · next hsome =>
      rw [if_neg hsome, mountedAll_eq_self hvolume fun path hpath =>
        hpresent path (List.mem_filter.mp hpath).1 (List.mem_filter.mp hpath).2]
      refine unmounted_eq_self fun path hpath => ?_
      obtain ⟨hpath, htext⟩ := List.mem_filter.mp hpath
      exact habsent path hpath (by simpa using htext)

end template

/-- Every file is where a delivery would put it: a file with content is mounted, with its key, from a
volume of its Secret; a file without is not; and a volume without files is not there. -/
structure InPlace (settings : Settings) (declared : List Delivery) (contents : Dict)
    (template : PodTemplate) : Prop where
  present : ∀ secret volume path, .file secret volume path ∈ declared →
    hasText contents path = true →
      template.mountAt settings.trinoContainerName path =
          some (fileMount volume path (fileKey path)) ∧
        template.volumeNamed volume = some (template.secretVolume volume secret)
  absent : ∀ secret volume path, .file secret volume path ∈ declared →
    hasText contents path = false → template.mountAt settings.trinoContainerName path = none
  empty : ∀ secret volume path, .file secret volume path ∈ declared →
    (∀ other, .file secret volume other ∈ declared → hasText contents other = false) →
      template.volumeNamed volume = none

/-- The API server refuses what a delivery asks of the template: there is no Trino container, or a
file with content is to be on a volume whose name is taken by one of another kind, or a volume
without files is still mounted when the mounts of its files are taken away. -/
def Refused (settings : Settings) (declared : List Delivery) (contents : Dict)
    (template : PodTemplate) : Prop :=
  ∃ secret volume path, .file secret volume path ∈ declared ∧
    (template.has settings.trinoContainerName = false ∨
      (hasText contents path = true ∧ template.occupied volume = true) ∨
      ((∀ other, .file secret volume other ∈ declared → hasText contents other = false) ∧
        (template.unmounted settings.trinoContainerName
          ((filesOn volume declared).map Delivery.path)).mounts volume = true))

section files

variable {settings : Settings} {template : PodTemplate} {secret volume : String}
  {paths : List String} {contents : Dict}

/-- None of the files has content. -/
theorem none_iff (secret volume : String) : paths.filter (hasText contents) = [] ↔
    ∀ other, .file secret volume other ∈ paths.map (Delivery.file secret volume) →
      hasText contents other = false := by
  rw [List.filter_eq_nil_iff]
  refine forall_congr' fun other => ?_
  rw [mem_files, Bool.not_eq_true]
  simp

theorem refuses_iff (hpaths : paths ≠ []) :
    Refuses template settings.trinoContainerName volume contents paths ↔
      Refused settings (paths.map (Delivery.file secret volume)) contents template := by
  have hon : (filesOn volume (paths.map (Delivery.file secret volume))).map Delivery.path = paths := by
    rw [filesOn_files, List.map_map]
    exact List.map_id _
  constructor
  · intro h
    obtain ⟨path, hpath⟩ := List.exists_mem_of_ne_nil paths hpaths
    rcases h with hhas | ⟨hpresent, htaken⟩ | ⟨hnone, hmounts⟩
    · exact ⟨secret, volume, path, List.mem_map_of_mem hpath, Or.inl hhas⟩
    · obtain ⟨file, hfile⟩ := List.exists_mem_of_ne_nil _ hpresent
      obtain ⟨hmem, htext⟩ := List.mem_filter.mp hfile
      exact ⟨secret, volume, file, List.mem_map_of_mem hmem, Or.inr (Or.inl ⟨htext, htaken⟩)⟩
    · refine ⟨secret, volume, path, List.mem_map_of_mem hpath,
        Or.inr (Or.inr ⟨(none_iff secret volume).mp hnone, ?_⟩)⟩
      rwa [hon]
  · rintro ⟨s, v, path, hfile, h⟩
    obtain ⟨rfl, rfl, hpath⟩ := mem_files.mp hfile
    rcases h with hhas | ⟨htext, htaken⟩ | ⟨hnone, hmounts⟩
    · exact Or.inl hhas
    · exact Or.inr (Or.inl ⟨List.ne_nil_of_mem (List.mem_filter.mpr ⟨hpath, htext⟩), htaken⟩)
    · rw [hon] at hmounts
      exact Or.inr (Or.inr ⟨(none_iff s v).mpr hnone, hmounts⟩)

theorem inPlace_iff (hpaths : paths ≠ []) :
    ((∀ path ∈ paths, hasText contents path = true →
        template.mountAt settings.trinoContainerName path =
          some (fileMount volume path (fileKey path))) ∧
      (∀ path ∈ paths, hasText contents path = false →
        template.mountAt settings.trinoContainerName path = none) ∧
      template.volumeNamed volume = if paths.filter (hasText contents) = [] then none
        else some (template.secretVolume volume secret)) ↔
      InPlace settings (paths.map (Delivery.file secret volume)) contents template := by
  constructor
  · rintro ⟨hpresent, habsent, hvolume⟩
    refine ⟨fun s v path hfile htext => ?_, fun s v path hfile htext => ?_,
      fun s v path hfile hnone => ?_⟩
    · obtain ⟨rfl, rfl, hpath⟩ := mem_files.mp hfile
      rw [if_neg (List.ne_nil_of_mem (List.mem_filter.mpr ⟨hpath, htext⟩))] at hvolume
      exact ⟨hpresent path hpath htext, hvolume⟩
    · obtain ⟨rfl, rfl, hpath⟩ := mem_files.mp hfile
      exact habsent path hpath htext
    · obtain ⟨rfl, rfl, hpath⟩ := mem_files.mp hfile
      rwa [if_pos ((none_iff s v).mpr hnone)] at hvolume
  · intro h
    refine ⟨fun path hpath htext => (h.present _ _ path (List.mem_map_of_mem hpath) htext).1,
      fun path hpath htext => h.absent _ _ path (List.mem_map_of_mem hpath) htext, ?_⟩
    split
    · next hnone =>
      obtain ⟨path, hpath⟩ := List.exists_mem_of_ne_nil paths hpaths
      exact h.empty _ _ path (List.mem_map_of_mem hpath) ((none_iff secret volume).mp hnone)
    · next hsome =>
      obtain ⟨path, hpath⟩ := List.exists_mem_of_ne_nil _ hsome
      obtain ⟨hmem, htext⟩ := List.mem_filter.mp hpath
      exact (h.present _ _ path (List.mem_map_of_mem hmem) htext).2

end files

/-! ### The answer and the delivery -/

/-- The Section's Secrets and the pod template are as they were. -/
def Untouched (declared : List Delivery) (before after : ClusterState) : Prop :=
  (∀ spec ∈ declared, after.secrets[spec.secret]? = before.secrets[spec.secret]?) ∧
    after.template = before.template

section delivery

variable {platform : Platform} {sect : Section} {cluster : Cluster} {resources : Resources}
  {contents : Dict} {secrets : List (String × Dict)} {s : ClusterState}

/-- The patches for a registered Section's files leave the template as it is exactly where they are
refused or everything is in place. -/
theorem sectionMounts_keep_iff (hsect : sect.Registered)
    (hrender : sect.renderFiles resources cluster.settings cluster.admin = .ok contents)
    (template : PodTemplate) :
    (template.after (sectionMounts sect cluster resources)).2 = template ↔
      Refused cluster.settings (sect.coordinatorFiles cluster.settings) contents template ∨
        InPlace cluster.settings (sect.coordinatorFiles cluster.settings) contents template := by
  rcases hsect.cases cluster.settings with
    ⟨secret, volume, paths, -, -, hpaths, hfiles⟩ | ⟨secret, path, hdirectory⟩ | hnone
  · rw [sectionMounts_files hpaths hrender hfiles, hfiles]
    have hrefuses : Refuses template cluster.settings.trinoContainerName volume contents paths ↔
        Refused cluster.settings (paths.map (Delivery.file secret volume)) contents template :=
      refuses_iff hpaths
    by_cases hrefused : Refuses template cluster.settings.trinoContainerName volume contents paths
    · obtain ⟨e, hafter⟩ := @after_refused template _ volume secret paths contents hpaths hrefused
      rw [hafter]
      exact iff_of_true rfl (Or.inl (hrefuses.mp hrefused))
    · rw [after_accepted hpaths hrefused, ← hrefuses, or_iff_right hrefused]
      have hhas : template.has cluster.settings.trinoContainerName = true := by
        by_contra hhas
        exact hrefused (Or.inl (by simpa using hhas))
      show PodTemplate.withFiles .. = _ ↔ _
      rw [withFiles_eq_self_iff hhas]
      exact inPlace_iff hpaths
  · rw [sectionMounts_directory hdirectory, hdirectory]
    exact iff_of_true rfl (Or.inr ⟨by simp, by simp, by simp⟩)
  · rw [sectionMounts_nil hnone, hnone]
    exact iff_of_true rfl (Or.inr ⟨by simp, by simp, by simp⟩)

/-- A delivery leaves its Secrets and the template as they were exactly where each Secret is there
and holds what it is to hold, and the patches keep the template. -/
theorem deliver_untouched_iff
    (hrender : sect.renderFiles resources cluster.settings cluster.admin = .ok contents)
    (hsecrets : bySecret (sect.coordinatorFiles cluster.settings) contents = .ok secrets)
    (hdeclared : sect.coordinatorFiles cluster.settings ≠ []) :
    Untouched (sect.coordinatorFiles cluster.settings) s
        ((deliver sect cluster resources).run (clusterMachine platform) s).2 ↔
      (∀ secret ∈ secrets, s.secrets[secret.1]? = some secret.2) ∧
        (s.template.after (sectionMounts sect cluster resources)).2 = s.template := by
  obtain ⟨s', hrun, htemplate, hwritten, -⟩ := @run_deliver platform sect cluster resources contents
    secrets hrender hsecrets hdeclared s
  have hnames (name : String) : name ∈ secrets.map Prod.fst ↔
      ∃ spec ∈ sect.coordinatorFiles cluster.settings, spec.secret = name := by
    rw [bySecret_names hsecrets, mem_secretsOf]
  rw [hrun]
  unfold Untouched
  rw [htemplate]
  refine and_congr_left fun _ => ?_
  constructor
  · intro h secret hsecret
    obtain ⟨spec, hspec, hname⟩ := (hnames secret.1).mp (List.mem_map_of_mem hsecret)
    rw [← hwritten secret hsecret, ← hname]
    exact (h spec hspec).symm
  · intro h spec hspec
    obtain ⟨secret, hsecret, hname⟩ := List.mem_map.mp ((hnames _).mpr ⟨spec, hspec, rfl⟩)
    rw [← hname, h secret hsecret]
    exact hwritten secret hsecret

/-- The answer is right exactly where a Secret differs, or each is there and the template is kept. -/
theorem answer_right_iff (hsect : sect.Registered)
    (hrender : sect.renderFiles resources cluster.settings cluster.admin = .ok contents)
    (hsecrets : bySecret (sect.coordinatorFiles cluster.settings) contents = .ok secrets)
    (hdeclared : sect.coordinatorFiles cluster.settings ≠ []) :
    ((secrets.any fun secret => s.secret secret.1 ≠ secret.2) = false ↔
        Untouched (sect.coordinatorFiles cluster.settings) s
          ((deliver sect cluster resources).run (clusterMachine platform) s).2) ↔
      (∃ secret ∈ secrets, s.secret secret.1 ≠ secret.2) ∨
        ((∀ secret ∈ secrets, secret.1 ∈ s.secrets) ∧
          (Refused cluster.settings (sect.coordinatorFiles cluster.settings) contents s.template ∨
            InPlace cluster.settings (sect.coordinatorFiles cluster.settings) contents
              s.template)) := by
  have hheld (secret : String × Dict) : s.secrets[secret.1]? = some secret.2 ↔
      s.secret secret.1 = secret.2 ∧ secret.1 ∈ s.secrets := by
    rw [ClusterState.secret, Std.ExtTreeMap.mem_iff_isSome_getElem?]
    cases s.secrets[secret.1]? <;> simp
  rw [deliver_untouched_iff hrender hsecrets hdeclared, sectionMounts_keep_iff hsect hrender]
  by_cases hdiffers : ∃ secret ∈ secrets, s.secret secret.1 ≠ secret.2
  · obtain ⟨secret, hsecret, hne⟩ := hdiffers
    refine iff_of_true (iff_of_false ?_ fun h => hne ((hheld secret).mp (h.1 secret hsecret)).1)
      (Or.inl ⟨secret, hsecret, hne⟩)
    rw [Bool.not_eq_false]
    exact List.any_eq_true.mpr ⟨secret, hsecret, decide_eq_true hne⟩
  · have hsame : ∀ secret ∈ secrets, s.secret secret.1 = secret.2 := fun secret hsecret =>
      not_not.mp fun hne => hdiffers ⟨secret, hsecret, hne⟩
    have hanswer : (secrets.any fun secret => s.secret secret.1 ≠ secret.2) = false := by
      simpa using hsame
    have hpresent : (∀ secret ∈ secrets, s.secrets[secret.1]? = some secret.2) ↔
        ∀ secret ∈ secrets, secret.1 ∈ s.secrets :=
      forall₂_congr fun secret hsecret => by rw [hheld, and_iff_right (hsame secret hsecret)]
    rw [or_iff_right hdiffers, hpresent, hanswer]
    exact ⟨fun h => h.mp rfl, fun h => ⟨fun _ => h, fun _ => rfl⟩⟩

end delivery

/-- Where `would_change` answers, it tells whether a delivery leaves everything as it was exactly
when one of the Secrets holds something else than what is rendered, or every Secret is there and
either the API server refuses the patches or every file is in place already. -/
theorem wouldChange_exact_iff (platform : Platform) (sect : Section)
    (hsect : sect.Registered) (cluster : Cluster)
    (resources : Resources) (s : ClusterState) :
    (∀ answer, ((wouldChange sect cluster resources).run (clusterMachine platform) s).1 =
        .ok answer →
      (answer = false ↔ Untouched (sect.coordinatorFiles cluster.settings) s
        ((deliver sect cluster resources).run (clusterMachine platform) s).2)) ↔
    ∀ contents secrets,
      sect.renderFiles resources cluster.settings cluster.admin = .ok contents →
      bySecret (sect.coordinatorFiles cluster.settings) contents = .ok secrets →
      (∃ secret ∈ secrets, s.secret secret.1 ≠ secret.2) ∨
        ((∀ secret ∈ secrets, secret.1 ∈ s.secrets) ∧
          (Refused cluster.settings (sect.coordinatorFiles cluster.settings) contents s.template ∨
            InPlace cluster.settings (sect.coordinatorFiles cluster.settings) contents
              s.template)) := by
  rw [run_wouldChange]
  by_cases hdeclared : sect.coordinatorFiles cluster.settings = []
  · -- nothing declared is nothing delivered
    refine iff_of_true (fun answer hanswer => ?_) fun contents secrets _ hsecrets => Or.inr ?_
    · simp only [changesFiles, hdeclared, List.isEmpty_nil, if_true, Except.ok.injEq] at hanswer
      rw [deliver_eq, hdeclared]
      exact iff_of_true hanswer.symm ⟨nofun, rfl⟩
    · have hnames := bySecret_names hsecrets
      rw [hdeclared] at hnames ⊢
      have hnone : secrets = [] := List.map_eq_nil_iff.mp hnames
      rw [hnone]
      exact ⟨nofun, Or.inr ⟨by simp, by simp, by simp⟩⟩
  · unfold changesFiles renderSecrets
    rw [if_neg (by simpa using hdeclared)]
    cases hrender : sect.renderFiles resources cluster.settings cluster.admin with
    | error e => exact iff_of_true nofun fun _ _ hcontents => nomatch hcontents
    | ok contents =>
      cases hsecrets : bySecret (sect.coordinatorFiles cluster.settings) contents with
      | error e =>
        refine iff_of_true (fun answer hanswer => ?_) fun contents' secrets hcontents hok => ?_
        · change (do
            let secrets ← bySecret (sect.coordinatorFiles cluster.settings) contents
            return secrets.any fun secret => s.secret secret.1 ≠ secret.2 :
              Except Error Bool) = _ at hanswer
          rw [hsecrets] at hanswer
          cases hanswer
        · cases hcontents
          rw [hsecrets] at hok
          cases hok
      | ok secrets =>
        have hanswer : (do
            let secrets ← bySecret (sect.coordinatorFiles cluster.settings) contents
            return secrets.any fun secret => s.secret secret.1 ≠ secret.2 : Except Error Bool) =
              .ok (secrets.any fun secret => s.secret secret.1 ≠ secret.2) := by
          rw [hsecrets]
          rfl
        have hone := @answer_right_iff platform sect cluster resources contents secrets s hsect
          hrender hsecrets hdeclared
        constructor
        · intro h contents' secrets' hcontents hok
          cases hcontents
          cases hsecrets.symm.trans hok
          exact hone.mp (h _ hanswer)
        · intro h answer hok
          cases hanswer.symm.trans hok
          exact hone.mpr (h contents secrets rfl hsecrets)

/-! ### A mount that is lost -/

def plainCluster : Cluster := ⟨{}, {}⟩

/-- A Secret that holds nothing yet is found to change, and the delivery changes it. -/
theorem wouldChange_right_for_first_listener :
    ((wouldChange EventListeners.eventListenersSection plainCluster EventListeners.auditListener).run
      (clusterMachine quietPlatform) freshCluster).1 = .ok true ∧
    ¬ Untouched (EventListeners.coordinatorFiles {}) freshCluster
      ((deliver EventListeners.eventListenersSection plainCluster EventListeners.auditListener).run
        (clusterMachine quietPlatform) freshCluster).2 := by
  have hanswer : ((wouldChange EventListeners.eventListenersSection plainCluster
      EventListeners.auditListener).run (clusterMachine quietPlatform) freshCluster).1 =
        .ok true := by
    rw [run_wouldChange]
    decide +kernel
  have hright := (wouldChange_exact_iff quietPlatform EventListeners.eventListenersSection
    (fun _ => rfl) plainCluster EventListeners.auditListener freshCluster).mpr
      fun contents secrets hcontents hsecrets => by
        have hrender : EventListeners.eventListenersSection.renderFiles
            EventListeners.auditListener {} {} =
              .ok ((∅ : Dict).insert EventListeners.MOUNT_PATH "event-listener.name=http\n") := by
          decide +kernel
        cases hrender.symm.trans hcontents
        have hwrites : bySecret (EventListeners.coordinatorFiles {})
            ((∅ : Dict).insert EventListeners.MOUNT_PATH "event-listener.name=http\n") =
            .ok [("trino-event-listener",
              (∅ : Dict).insert EventListeners.FILE_KEY "event-listener.name=http\n")] := by
          decide +kernel
        cases hwrites.symm.trans hsecrets
        exact Or.inl ⟨_, List.mem_singleton_self _, by decide +kernel⟩
  exact ⟨hanswer, fun huntouched => nomatch (hright true hanswer).mpr huntouched⟩

/-- The Secret holds the listener's file, and the template has lost its mount. -/
def lostMount : ClusterState where
  secrets := (∅ : Secrets).insert "trino-event-listener"
    ((∅ : Dict).insert EventListeners.FILE_KEY "event-listener.name=http\n")
  template := freshCluster.template
  catalogs := ∅
  loaded := ∅
  stale := []
  starts := 0

/-- Nothing is said to change, and the delivery mounts the file again. -/
theorem wouldChange_misses_mount :
    ((wouldChange EventListeners.eventListenersSection plainCluster EventListeners.auditListener).run
        (clusterMachine quietPlatform) lostMount).1 = .ok false ∧
      ¬ Untouched (EventListeners.coordinatorFiles {}) lostMount
        ((deliver EventListeners.eventListenersSection plainCluster EventListeners.auditListener).run
          (clusterMachine quietPlatform) lostMount).2 := by
  refine ⟨by decide +kernel, fun h => absurd h.2 ?_⟩
  decide +kernel

end Apchi.Pipeline
