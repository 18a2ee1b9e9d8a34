import EffectGraph.Catalog.Arithmetic
import EffectGraph.Catalog.Texts
import EffectGraph.Catalog.Logic
import EffectGraph.Catalog.Show
import EffectGraph.Catalog.Host
import EffectGraph.Catalog.Signals
import EffectGraph.Catalog.Events

/-!
# The standard catalog

The bundles that do not depend on what the host shows, in the order in which they are installed.
-/

namespace EffectGraph

namespace Catalog

/-- The bundles of the standard catalog. -/
def standardBundles : List Bundle :=
  [Events.bundle, Signals.bundle, Arithmetic.bundle, Texts.bundle, Lists.bundle, Logic.bundle,
   Show.bundle .default, Log.bundle]

/-- The table with the standard catalog. -/
def standard : HandlerTable := standardBundles.foldl HandlerTable.install .empty

end Catalog

end EffectGraph
