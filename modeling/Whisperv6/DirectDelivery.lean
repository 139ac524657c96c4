import Whisperv6.Delivery

/-! Direct messages of trusted peers reach the filters without passing through `add`, so their proof
of work is not cached when the first filters are matched with them. -/

namespace Whisperv6

open ProofKit

namespace Filters

variable {C : Crypto} {fs : Filters} {env : Envelope} {r : FilterRef}

/-- The filters that a direct message triggers are the same in every order, and a ready filter with
a positive bound that the proof of work meets is one of them. -/
def DirectDelivery (C : Crypto) (fs : Filters) (env : Envelope) : Prop :=
  (∀ order order', fs.WatcherOrder env.topic order → fs.WatcherOrder env.topic order' →
    ∀ r, r ∈ fs.triggered C env true order ↔ r ∈ fs.triggered C env true order') ∧
  ∀ order r, fs.WatcherOrder env.topic order → fs.Ready C env true r →
    FloatVal.zero.lt (fs.heap r).pow.value = true →
    (fs.heap r).pow.value.le (env.pow C) = true → r ∈ fs.triggered C env true order

/-- A filter without topics opens the envelope before the filter is visited, in every order. -/
def Follows (C : Crypto) (fs : Filters) (env : Envelope) (r : FilterRef) : Prop :=
  (fs.heap r).topics ≠ [] ∧ ∃ g, fs.Opener C env true g ∧ (fs.heap g).topics = []

/-- No filter opens the envelope before the filter is visited, in any order. -/
def Leads (C : Crypto) (fs : Filters) (env : Envelope) (r : FilterRef) : Prop :=
  ∀ g, fs.Opener C env true g → (fs.heap r).topics = [] ∧ (fs.heap g).topics ≠ []

/-- Before the proof of work is computed, the envelope matches the filters without a bound. -/
theorem matchEnvelope_of_zero (hcache : env.powCache = .zero) :
    (fs.heap r).matchEnvelope env = true ↔ (fs.heap r).pow.value.le .zero = true := by
  rw [Filter.matchEnvelope, hcache, Bool.or_self]

theorem pow_ne_nan_of_zero (hcache : env.powCache = .zero) : env.pow C ≠ .nan := by
  rw [Envelope.pow, Envelope.fillPoW, if_pos hcache]
  exact env.calculatePoW_ne_nan C 0

theorem not_le_zero_of_lt (h : FloatVal.zero.lt (fs.heap r).pow.value = true) :
    (fs.heap r).pow.value.le .zero = false := by
  by_contra hle
  rw [Bool.not_eq_false] at hle
  rw [FloatVal.not_lt_of_le hle] at h
  cases h

/-- A ready filter whose bound `MatchMessage` accepts but `MatchEnvelope` does not is triggered when
an opener precedes it. -/
theorem mem_triggered_direct {order : List FilterRef} (hindexed : fs.Indexed C)
    (hkeys : fs.KeysDistinct C env) (hcache : env.powCache = .zero)
    (ho : fs.WatcherOrder env.topic order) :
    r ∈ fs.triggered C env true order ↔ fs.Ready C env true r ∧ fs.within C env r = true ∧
      ((fs.heap r).pow.value.le .zero = true ∨
        Preceded (fs.opener C env true · = true) order r) := by
  rw [mem_triggered_iff hindexed hkeys _ ho, matchEnvelope_of_zero hcache]
  intro r hmatch
  rw [within_iff (pow_ne_nan_of_zero hcache)]
  exact .inl ((matchEnvelope_of_zero hcache).mp hmatch)

theorem Follows.preceded {order : List FilterRef} (h : fs.Follows C env r)
    (hindexed : fs.Indexed C) (hr : fs.Candidate env.topic r)
    (ho : fs.WatcherOrder env.topic order) :
    Preceded (fs.opener C env true · = true) order r := by
  obtain ⟨hne, g, hopener, hnil⟩ := h
  exact ho.preceded hindexed hr hne hopener.1 ((opener_iff hopener.1).mpr hopener) hnil

theorem Leads.not_preceded {order : List FilterRef} (h : fs.Leads C env r)
    (hindexed : fs.Indexed C) (ho : fs.WatcherOrder env.topic order) :
    ¬ Preceded (fs.opener C env true · = true) order r :=
  ho.not_preceded hindexed fun g hg hopener => h g ((opener_iff hg).mp hopener)

/-- A candidate that does not follow an opener in every order precedes all of them in one. -/
theorem exists_order_leading (hindexed : fs.Indexed C) (hr : fs.Candidate env.topic r)
    (h : ¬ fs.Follows C env r) : ∃ order, fs.WatcherOrder env.topic order ∧
      ¬ Preceded (fs.opener C env true · = true) order r := by
  refine exists_order_not_preceded hindexed hr ?_
  rintro ⟨hne, g, hg, hopener, hnil⟩
  exact h ⟨hne, g, (opener_iff hg).mp hopener, hnil⟩

/-- A candidate that does not open the envelope itself follows an opener in some order, unless it
leads in all of them. -/
theorem exists_order_following (hindexed : fs.Indexed C) (hr : fs.Candidate env.topic r)
    (hself : (fs.heap r).matchEnvelope env = false) (h : ¬ fs.Leads C env r) :
    ∃ order, fs.WatcherOrder env.topic order ∧
      Preceded (fs.opener C env true · = true) order r := by
  obtain ⟨g, hg⟩ := not_forall.mp h
  obtain ⟨hopener, horder⟩ := Classical.not_imp.mp hg
  have hne : r ≠ g := by
    rintro rfl
    rw [hopener.2.2.1] at hself
    cases hself
  exact exists_order_preceded hindexed hr hopener.1 hne ((opener_iff hopener.1).mpr hopener) horder

theorem DirectDelivery.follows (h : fs.DirectDelivery C env) (hindexed : fs.Indexed C)
    (hkeys : fs.KeysDistinct C env) (hcache : env.powCache = .zero) (hready : fs.Ready C env true r)
    (hpos : FloatVal.zero.lt (fs.heap r).pow.value = true)
    (hmet : (fs.heap r).pow.value.le (env.pow C) = true) : fs.Follows C env r := by
  by_contra hfollows
  obtain ⟨order, ho, hpre⟩ := exists_order_leading hindexed hready.1 hfollows
  obtain ⟨-, -, h⟩ := (mem_triggered_direct hindexed hkeys hcache ho).mp
    (h.2 order r ho hready hpos hmet)
  rw [not_le_zero_of_lt hpos] at h
  exact h.elim (fun h => nomatch h) hpre

theorem DirectDelivery.follows_or_leads (h : fs.DirectDelivery C env) (hindexed : fs.Indexed C)
    (hkeys : fs.KeysDistinct C env) (hcache : env.powCache = .zero) (hready : fs.Ready C env true r)
    (hnan : (fs.heap r).pow.value = .nan) : fs.Follows C env r ∨ fs.Leads C env r := by
  by_contra hboth
  rw [not_or] at hboth
  have hle : (fs.heap r).pow.value.le .zero = false := by
    rw [hnan]
    exact FloatVal.nan_le _
  have hself : (fs.heap r).matchEnvelope env = false := by
    rw [← Bool.not_eq_true, matchEnvelope_of_zero hcache, hle]
    exact fun h => nomatch h
  have hwithin : fs.within C env r = true :=
    (within_iff (pow_ne_nan_of_zero hcache)).mpr (.inr (.inr hnan))
  obtain ⟨order, ho, hnot⟩ := exists_order_leading hindexed hready.1 hboth.1
  obtain ⟨order', ho', hpre⟩ := exists_order_following hindexed hready.1 hself hboth.2
  have htriggered := (mem_triggered_direct hindexed hkeys hcache ho').mpr
    ⟨hready, hwithin, .inr hpre⟩
  obtain ⟨-, -, h⟩ := (mem_triggered_direct hindexed hkeys hcache ho).mp
    ((h.1 order' order ho' ho r).mp htriggered)
  rw [hle] at h
  exact h.elim (fun h => nomatch h) hnot

/-- A bound that is met and not positive opens the envelope; the others are met or a NaN. -/
theorem within_cases (hcache : env.powCache = .zero) (hwithin : fs.within C env r = true) :
    (fs.heap r).pow.value.le .zero = true ∨
    (FloatVal.zero.lt (fs.heap r).pow.value = true ∧
      (fs.heap r).pow.value.le (env.pow C) = true) ∨
    (fs.heap r).pow.value = .nan := by
  rcases (within_iff (pow_ne_nan_of_zero hcache)).mp hwithin with hle | hmet | hnan
  · exact .inl hle
  · by_cases hle : (fs.heap r).pow.value.le .zero = true
    · exact .inl hle
    · have hnotnan : (fs.heap r).pow.value ≠ .nan := by
        intro heq
        rw [heq, FloatVal.nan_le] at hmet
        cases hmet
      refine .inr (.inl ⟨?_, hmet⟩)
      rw [FloatVal.lt_eq_not_le (by decide) hnotnan]
      simpa using hle
  · exact .inr (.inr hnan)

/-- Direct delivery does not depend on the order exactly when every ready filter with a positive
bound that is met follows an opener in every order, and every ready filter with a NaN as its bound
does so in every order or in none. -/
theorem directDelivery_iff (C : Crypto) {acts : List FilterAction} {fs : Filters} {env : Envelope}
    (run : Run (FilterStep C) {} acts fs) (hcache : env.powCache = .zero)
    (hkeys : fs.KeysDistinct C env) :
    fs.DirectDelivery C env ↔ ∀ r, fs.Ready C env true r →
      (FloatVal.zero.lt (fs.heap r).pow.value = true →
        (fs.heap r).pow.value.le (env.pow C) = true → fs.Follows C env r) ∧
      ((fs.heap r).pow.value = .nan → fs.Follows C env r ∨ fs.Leads C env r) := by
  have hindexed := run_indexed run
  constructor
  · intro h r hready
    exact ⟨h.follows hindexed hkeys hcache hready, h.follows_or_leads hindexed hkeys hcache hready⟩
  intro h
  constructor
  · intro order order' ho ho' r
    rw [mem_triggered_direct hindexed hkeys hcache ho,
      mem_triggered_direct hindexed hkeys hcache ho']
    refine and_congr_right fun hready => and_congr_right fun hwithin => ?_
    have hlate : (fs.heap r).pow.value.le .zero = true ∨ fs.Follows C env r ∨
        fs.Leads C env r := by
      rcases within_cases hcache hwithin with hle | ⟨hpos, hmet⟩ | hnan
      · exact .inl hle
      · exact .inr (.inl ((h r hready).1 hpos hmet))
      · exact .inr ((h r hready).2 hnan)
    rcases hlate with hle | hfollows | hleads
    · exact iff_of_true (.inl hle) (.inl hle)
    · exact iff_of_true (.inr (hfollows.preceded hindexed hready.1 ho))
        (.inr (hfollows.preceded hindexed hready.1 ho'))
    · rw [or_iff_left (hleads.not_preceded hindexed ho),
        or_iff_left (hleads.not_preceded hindexed ho')]
  · intro order r ho hready hpos hmet
    refine (mem_triggered_direct hindexed hkeys hcache ho).mpr ⟨hready, ?_, .inr ?_⟩
    · exact (within_iff (pow_ne_nan_of_zero hcache)).mpr (.inr (.inl hmet))
    · exact ((h r hready).1 hpos hmet).preceded hindexed hready.1 ho

end Filters

theorem Filters.directDelivery_iff_pair :
    (pairFilters 0).DirectDelivery tagCrypto shortEnvelope := by
  refine (directDelivery_iff tagCrypto (pairFilters_run 0) rfl (pairFilters_keysDistinct 0 _)).mpr
    fun r hready => ?_
  have hpos : FloatVal.zero.lt (0 : Float64).value = false := by decide +kernel
  have hnan : (0 : Float64).value ≠ .nan := by decide +kernel
  have hbound : ((pairFilters 0).heap r).pow = 0 := by
    rcases pairFilters_installed hready.1.1 with rfl | rfl <;> rfl
  rw [hbound]
  refine ⟨fun h => ?_, fun h => absurd h hnan⟩
  rw [hpos] at h
  cases h

/-- Of two filters with the same key, the one with the bound 1 gets a direct message only when it is
visited after the other. -/
theorem Filters.not_directDelivery_bound :
    Run (FilterStep tagCrypto) {} (pairActions 0x3FF0000000000000)
      (pairFilters 0x3FF0000000000000) ∧
    shortEnvelope.powCache = .zero ∧
    (pairFilters 0x3FF0000000000000).KeysDistinct tagCrypto shortEnvelope ∧
    ¬ (pairFilters 0x3FF0000000000000).DirectDelivery tagCrypto shortEnvelope := by
  refine ⟨pairFilters_run _, rfl, pairFilters_keysDistinct _ _, fun h => ?_⟩
  have ho := pairFilters_order 0x3FF0000000000000 [0, 1] (by decide)
  have ho' := pairFilters_order 0x3FF0000000000000 [1, 0] (by decide)
  have hafter : 1 ∈ (pairFilters 0x3FF0000000000000).triggered tagCrypto shortEnvelope true
      [0, 1] := by decide +kernel
  have hbefore : 1 ∉ (pairFilters 0x3FF0000000000000).triggered tagCrypto shortEnvelope true
      [1, 0] := by decide +kernel
  exact hbefore ((h.1 [0, 1] [1, 0] ho ho' 1).mp hafter)

end Whisperv6
