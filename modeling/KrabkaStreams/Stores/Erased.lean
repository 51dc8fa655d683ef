import KrabkaStreams.Stores.Session
import KrabkaStreams.Stores.Window

/-!
# The window and the session store in a registry

What a task drives of a window and of a session store. Both forward the changes of a flush under the windowed key, and
keep the rest in the byte store they share.
-/

namespace KrabkaStreams

variable {A : Type}

def eraseWindowed (r : Record (Windowed A) (Change A)) : ErasedRecord (Value A) :=
  ⟨r.key.map fun k => .windowed k.key k.window.start k.window.stop, .change r.value.old r.value.new, r.timestamp⟩

instance : StateStore (WindowBytesStore A A) (Value A) where
  changelogTopic s := s.changelogTopic
  takeChangelogTs s := (s.changelog.map fun e => ⟨e.1, e.2, none⟩, ⟨s.toByteStore.takeChangelog.2, s.windowSize⟩)
  applyChangelogTs s k v _ := ⟨s.toByteStore.applyChangelog k v, s.windowSize⟩
  setLogging s on := ⟨s.toByteStore.setLogging on, s.windowSize⟩
  flushCacheInto s := (s.flushCacheInto.1.map (List.map eraseWindowed), s.flushCacheInto.2)
  isDirty s := s.backing.isDirty
  enableCache s := some s.enableCache
  clear s := ⟨s.toByteStore.clear, s.windowSize⟩
  snapshot s := s.backing.snapshot
  restoreSnapshot s data := (s.toByteStore.restoreSnapshot data).map (⟨·, s.windowSize⟩)

instance : StateStore (SessionBytesStore A A) (Value A) where
  changelogTopic s := s.changelogTopic
  takeChangelogTs s := (s.changelog.map fun e => ⟨e.1, e.2, none⟩, ⟨s.toByteStore.takeChangelog.2⟩)
  applyChangelogTs s k v _ := ⟨s.toByteStore.applyChangelog k v⟩
  setLogging s on := ⟨s.toByteStore.setLogging on⟩
  flushCacheInto s := (s.flushCacheInto.1.map (List.map eraseWindowed), s.flushCacheInto.2)
  isDirty s := s.backing.isDirty
  enableCache s := some s.enableCache
  clear s := ⟨s.toByteStore.clear⟩
  snapshot s := s.backing.snapshot
  restoreSnapshot s data := (s.toByteStore.restoreSnapshot data).map (⟨·⟩)

end KrabkaStreams
