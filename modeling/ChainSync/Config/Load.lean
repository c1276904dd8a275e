import ChainSync.Config.File
import ChainSync.Program.Options

/-!
# Configuration in force

A node runs with what its file says, or the defaults of its chain if there
is no file, and what is given on the command line takes precedence. The
chain is always the command line's.
-/

namespace ChainSync.NodeConfig

/-- Puts what the command line gives in place of what is configured. -/
def override (o : Options) (c : NodeConfig) : NodeConfig :=
  { c with
    chain := o.network
    network :=
      { c.network with
        bindAddress := o.p2pBind.getD c.network.bindAddress
        seeds := if o.seeds.isEmpty then c.network.seeds else o.seeds }
    api :=
      { c.api with
        bindAddress := o.apiBind.getD c.api.bindAddress
        enabled := c.api.enabled && !o.noApi } }

/-- The configuration in force; `file` is what the file holds, if there is one. -/
def load (file : Option Bytes) (o : Options) : Except ConfigError NodeConfig := do
  let c ← match file with
    | some bs => ofFile bs
    | none => .ok (ofChain o.network)
  return c.override o

end ChainSync.NodeConfig
