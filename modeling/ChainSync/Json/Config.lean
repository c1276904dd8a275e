import ChainSync.Json.Basic
import ChainSync.Config.Load

/-!
# Structured configuration

How the command line, the configuration and what follows from it are
shown. Durations are in milliseconds, as text.
-/

namespace ChainSync.Json

instance : ToJson Options where
  toJson o := record
    [("config", toJson o.config), ("network", toJson o.network), ("api_bind", toJson o.apiBind),
     ("p2p_bind", toJson o.p2pBind), ("seed", toJson o.seeds), ("no_api", toJson o.noApi),
     ("log_level", toJson o.logLevel), ("version_info", toJson o.versionInfo)]

instance : ToJson NetworkSection where
  toJson n := record
    [("bind_address", toJson n.bindAddress), ("listen", toJson n.listen), ("magic", toJson n.magic),
     ("seed_list", toJson n.seeds), ("min_clients", toJson n.minClients),
     ("max_clients", toJson n.maxClients), ("dial_timeout_secs", toJson n.dialTimeoutSecs),
     ("handshake_timeout_secs", toJson n.handshakeTimeoutSecs),
     ("read_timeout_secs", toJson n.readTimeoutSecs),
     ("peer_query_interval_secs", toJson n.peerQueryIntervalSecs),
     ("pool_check_interval_secs", toJson n.poolCheckIntervalSecs),
     ("max_concurrent_dials", toJson n.maxConcurrentDials), ("user_agent", toJson n.userAgent)]

instance : ToJson SyncSection where
  toJson s := record
    [("tick_interval_ms", toJson s.tickIntervalMs), ("header_look_ahead", toJson s.headerLookAhead),
     ("block_cache_capacity", toJson s.blockCacheCapacity),
     ("block_request_limit", toJson s.blockRequestLimit),
     ("header_timeout_secs", toJson s.headerTimeoutSecs),
     ("block_timeout_secs", toJson s.blockTimeoutSecs)]

instance : ToJson ApiSection where
  toJson a := record
    [("enabled", toJson a.enabled), ("bind_address", toJson a.bindAddress), ("api_key", toJson a.key)]

instance : ToJson NodeConfig where
  toJson c := record
    [("node_name", toJson c.name), ("chain", toJson c.chain), ("network", toJson c.network),
     ("sync", toJson c.sync), ("api", toJson c.api)]

def millis (d : Duration) : Json :=
  text (toString (d / Duration.ofMillis 1))

instance : ToJson PoolConfig where
  toJson p := record
    [("magic", toJson p.magic), ("connect_ms", millis p.connectTimeout),
     ("handshake_ms", millis p.handshakeTimeout), ("read_ms", millis p.readTimeout),
     ("bind", toJson (p.bindAddress.map (·.toText))), ("seeds", toJson p.seeds),
     ("min", toJson p.minClients), ("max", toJson p.maxClients), ("query_ms", millis p.queryInterval),
     ("check_ms", millis p.checkInterval), ("dials", toJson p.maxDials), ("agent", toJson p.userAgent)]

instance : ToJson SyncConfig where
  toJson s := record
    [("tick_ms", millis s.tickInterval), ("look_ahead", toJson s.lookAhead),
     ("cache", toJson s.cacheCapacity), ("limit", toJson s.requestLimit),
     ("header_ms", millis s.headerTimeout), ("block_ms", millis s.blockTimeout)]

end ChainSync.Json
